import Mazu.Sched.Known

/-!
# Single execution

A thread marks itself blocked before its hart has switched away, and a waker on another hart can put
it on a run queue in between; an idle hart may then steal it while its context is still in the
registers of the first. A second window opens after the run-queue lock is dropped: the old thread is
back on a queue and `curthread` still names it.
-/

namespace Mazu.Sched

variable {n : ℕ} {s s' : Sys n} {e : Event n}

/-- No thread is current on two harts, and none is picked by a hart while another still runs it
with its context unsaved. -/
def SingleExecution (s : Sys n) : Prop :=
  (∀ c c', s.cur c = s.cur c' → c = c') ∧
  ∀ c c' free, c ≠ c' → s.phase c' = .picked (s.cur c) free → s.phase c ≠ .running

def Phase.isPicked : Phase → Bool
  | picked _ _ => true
  | _ => false

/-- A waker puts no task on a run queue that is current or picked on a hart, and no hart picks while
another has given its old thread back and not yet stored the new one. -/
def Apart (s : Sys n) : Event n → Prop
  | .enqueue t _ => s.Linked t ∨ ∀ c, s.cur c ≠ t ∧ ∀ free, s.phase c ≠ .picked t free
  | .schedule c _ _ => ∀ c', c' ≠ c → (s.phase c').isPicked = true → ¬s.Queued (s.cur c')
  | .pick c _ => ∀ c', c' ≠ c → (s.phase c').isPicked = true → ¬s.Queued (s.cur c')
  | _ => True

instance (s : Sys n) : DecidablePred (Apart s) := by
  rintro (_ | _) <;> delta Apart <;> dsimp only <;> infer_instance

/-- The invariant behind it. -/
structure Single (s : Sys n) : Prop where
  cur_inj : ∀ c c', s.cur c = s.cur c' → c = c'
  mid : ∀ c, s.Queued (s.cur c) → (s.phase c).isPicked = true
  picked_queued : ∀ c t free, s.phase c = .picked t free → ¬s.Queued t
  picked_cur : ∀ c c' t free, s.phase c = .picked t free → s.cur c' = t → c' = c
  picked_inj : ∀ c c' t free free', s.phase c = .picked t free → s.phase c' = .picked t free' →
    c = c'

theorem single_boot (budget : ℕ → ℕ) : Single (boot n budget) where
  cur_inj := fun _ _ h ↦ Fin.ext h
  mid := by
    rintro c ⟨a, p, h⟩
    exact absurd h List.not_mem_nil
  picked_queued := fun _ _ _ h ↦ by cases h
  picked_cur := fun _ _ _ _ h ↦ by cases h
  picked_inj := fun _ _ _ _ _ h ↦ by cases h

namespace Single

/-- A thread that a hart newly picks is current on no other hart. -/
theorem cur_ne_of_pick (hs : Single s) (hK : Apart s e) {c c' : Fin n} {t : Tid}
    (he : (∃ delta busy, e = .schedule c delta busy) ∨ ∃ busy, e = .pick c busy)
    (ht : s.Queued t ∨ t = s.cur c ∧ s.Runnable t) (hc : s.cur c' = t) : c' = c := by
  by_contra hne
  have hmid : ∀ a, a ≠ c → (s.phase a).isPicked = true → ¬s.Queued (s.cur a) := by
    rcases he with ⟨delta, busy, rfl⟩ | ⟨busy, rfl⟩
    · exact hK
    · exact hK
  rcases ht with hq | ⟨rfl, -⟩
  · rw [← hc] at hq
    exact hmid c' hne (hs.mid c' hq) hq
  · exact hne (hs.cur_inj c' c hc)

theorem step (hs : Single s) (hK : Apart s e) (h : step s e = some s') : Single s' := by
  -- a hart that schedules ends in a phase in which it has picked
  have hnew : ∀ t, s'.Queued t → s.Queued t ∨ (∃ c, e = .enqueue t c ∧ ¬s.Linked t) ∨
      ∃ c, t = s.cur c ∧ (s'.phase c).isPicked = true ∧ s.phase c = .trapped := by
    intro t ht
    rcases step_queued h ht with hq | hq | ⟨c, delta, busy, u, rfl, htc, -, heq⟩
    · exact .inl hq
    · exact .inr (.inl hq)
    · obtain ⟨hg, -⟩ := Option.ite_none_right_eq_some.mp h
      refine .inr (.inr ⟨c, htc, ?_, hg⟩)
      rw [Sys.phase, heq]
      rfl
  refine ⟨?_, ?_, ?_, ?_, ?_⟩
  · intro c c' hcc
    rcases step_cur h c with hc | ⟨free, he, hph, -⟩ <;>
      rcases step_cur h c' with hc' | ⟨free', he', hph', -⟩
    · exact hs.cur_inj c c' (hc.symm.trans (hcc.trans hc'))
    · exact hs.picked_cur c' c _ free' hph' (hc.symm.trans hcc)
    · exact (hs.picked_cur c c' _ free hph (hc'.symm.trans hcc.symm)).symm
    · cases he.symm.trans he'
      rfl
  · intro c hq
    rcases step_cur h c with hc | ⟨free, he, hph, -⟩
    · rw [hc] at hq
      rcases hnew _ hq with hq | ⟨a, rfl, hl⟩ | ⟨a, hca, hpk, -⟩
      · -- the phase stays a picked one unless the hart commits
        have hmid := hs.mid c hq
        rcases step_hart h c with heq | ⟨d, hd, heq⟩
        · rw [Sys.phase, heq]
          exact hmid
        · rw [Sys.phase, heq]
          cases hd with
          | scheduled | picked => rfl
          | switched hph =>
            rw [Sys.cur, heq] at hc
            exact absurd hq (hc ▸ hs.picked_queued c _ _ hph)
          | trapped hph | cleaning hph | releasing hph =>
            rw [hph] at hmid
            cases hmid
      · exact absurd rfl ((hK.resolve_left hl) c).1
      · rw [hs.cur_inj c a hca]
        exact hpk
    · rcases hnew _ hq with hq | ⟨a, rfl, -⟩ | ⟨a, -, hpk, htr⟩
      · exact absurd hq (hs.picked_queued c _ free hph)
      · cases he
      · subst he
        rcases step_hart h a with heq | ⟨d, hd, -⟩
        · rw [Sys.phase, heq] at hpk
          rw [Sys.phase] at htr
          rw [htr] at hpk
          cases hpk
        · cases hd with
          | switched hpa => cases htr.symm.trans hpa
  · intro c t free hph hq
    rcases step_picked h hph with ⟨hph, -⟩ | ⟨-, -, hnq⟩
    · rcases hnew t hq with hq | ⟨a, rfl, hl⟩ | ⟨a, rfl, -, htr⟩
      · exact hs.picked_queued c t free hph hq
      · exact ((hK.resolve_left hl) c).2 free hph
      · rw [hs.picked_cur c a _ free hph rfl, hph] at htr
        cases htr
    · exact hnq hq
  · intro c c' t free hph hct
    rcases step_picked h hph with ⟨hph, -⟩ | ⟨he, ht, -⟩
    · rcases step_cur h c' with hc' | ⟨free', he', hph', -⟩
      · exact hs.picked_cur c c' t free hph (hc'.symm.trans hct)
      · rw [hct] at hph'
        exact hs.picked_inj c' c t free' free hph' hph
    · rcases step_cur h c' with hc' | ⟨free', he', hph', -⟩
      · exact hs.cur_ne_of_pick hK he ht (hc'.symm.trans hct)
      · rcases he with ⟨_, _, he⟩ | ⟨_, he⟩ <;> cases he'.symm.trans he
  · intro c c' t free free' hph hph'
    rcases step_picked h hph with ⟨hph, -⟩ | ⟨he, ht, -⟩ <;>
      rcases step_picked h hph' with ⟨hph', -⟩ | ⟨he', ht', -⟩
    · exact hs.picked_inj c c' t free free' hph hph'
    · rcases ht' with hq | ⟨rfl, -⟩
      · exact absurd hq (hs.picked_queued c t free hph)
      · exact (hs.picked_cur c c' _ free hph rfl).symm
    · rcases ht with hq | ⟨rfl, -⟩
      · exact absurd hq (hs.picked_queued c' t free' hph')
      · exact hs.picked_cur c' c _ free' hph' rfl
    · rcases he with ⟨_, _, rfl⟩ | ⟨_, rfl⟩ <;> rcases he' with ⟨_, _, he'⟩ | ⟨_, he'⟩ <;> cases he' <;> rfl

end Single

/-- **Single execution.** In every run in which wakers reach only threads that have switched away
and picks do not fall into another hart's switch. -/
theorem single_execution (h : Reach Apart s) : SingleExecution s := by
  obtain ⟨budget, h⟩ := h
  have hs : Single s := h.invariant (single_boot budget) fun _ _ _ hs hK hstep ↦ hs.step hK hstep
  refine ⟨hs.cur_inj, fun c c' free hne hph _ ↦ ?_⟩
  exact hne (hs.picked_cur c' c _ free hph rfl)

/-- A new thread of hart `c`, created and preempting what runs there. -/
def startThread (c : Fin n) (t : Tid) (prio : Prio) : List (Event n) :=
  [.create c none prio none, .enqueue t c, .trap c true, .schedule c 0 [], .commit c]

/-- Thread 2 blocks and hart 0 goes idle; then it is woken, and hart 1 steals it. -/
theorem single_execution_steal : ∃ s : Sys 2, Reach Apart s ∧ s.cur 1 = 2 ∧ s.cur 0 = 0 ∧
    SingleExecution s := by
  obtain ⟨s, hs, h1, h0⟩ : ∃ s : Sys 2, Reach Apart s ∧ s.cur 1 = 2 ∧ s.cur 0 = 0 :=
    exists_reach Apart (fun _ ↦ 1) (startThread 0 2 1 ++
      [.block 0 ⟨.waitqueue, 0⟩, .trap 0 false, .schedule 0 0 [], .commit 0,
        .wake 1 (.wakeUp 0 1), .enqueue 2 0, .trap 1 true, .schedule 1 0 [], .commit 1])
      (by decide +kernel)
  exact ⟨s, hs, h1, h0, single_execution hs⟩

/-- Thread 2 has marked itself blocked and is woken by hart 1 before hart 0 has trapped; hart 1
steals it. -/
theorem not_single_execution : ¬∀ s : Sys 2, Reach Any s → SingleExecution s := by
  intro hall
  obtain ⟨s, hs, hcur⟩ : ∃ s : Sys 2, Reach Any s ∧ s.cur 0 = s.cur 1 :=
    exists_reach Any (fun _ ↦ 1) (startThread 0 2 1 ++
      [.block 0 ⟨.waitqueue, 0⟩, .wake 1 (.wakeUp 0 1), .enqueue 2 0, .trap 1 true,
        .schedule 1 0 [], .commit 1])
      (by decide +kernel)
  exact absurd ((hall s hs).1 0 1 hcur) (by decide)

end Mazu.Sched
