import Mazu.Sched.Deadline

/-!
# Bandwidth of deadline tasks

The budget is filled up when the parameters are set and by the callout that exhaustion arms, and
nowhere else. A task that sleeps past the end of its period with budget left and uses it up after
that is replenished a tick later; the period that is begun then reaches back over what it has just
run.
-/

namespace Mazu.Sched.Deadline

variable {T : Type}

/-- The ticks of the period for which the task was charged. -/
def chargedIn (log : List ℕ) (a : Activation) : ℕ :=
  log.countP fun τ ↦ a.start ≤ τ ∧ τ < a.start + a.period

/-- The budget is used up inside the period, or so late that the next period begins anew; parameters
are set when the last period is over and no callout is pending. -/
def Punctual (s : Sys T) : Event T → Prop
  | .tick runs => ∀ t ∈ runs, (s.dl t).Chargeable → (s.dl t).remaining ≤ 1 →
      s.now + 1 ≤ (s.dl t).periodEnd ∨ (s.dl t).periodEnd + (s.dl t).deadline < s.now + 2
  | .setattr t _ _ _ => s.timer t = none ∧ (s.dl t).periodEnd ≤ s.now
  | _ => True

instance (s : Sys T) (e : Event T) : Decidable (Punctual s e) := by
  cases e <;> unfold Punctual <;> infer_instance

/-! ## One task -/

theorem chargedIn_eq_zero {log : List ℕ} {a : Activation} (h : ∀ τ ∈ log, τ < a.start) :
    chargedIn log a = 0 := by
  refine List.countP_eq_zero.mpr fun τ hτ hin ↦ ?_
  have hlt := h τ hτ
  have hge := (of_decide_eq_true hin).1
  omega

/-- What is known of a task: its parameters, its callout, the ticks it was charged for and the
periods it began. -/
structure Metered (now : ℕ) (d : Entity) (timer : Option ℕ) (log : List ℕ)
    (begun : List Activation) : Prop where
  past : ∀ τ ∈ log, τ < now
  bound : ∀ a ∈ begun, chargedIn log a ≤ a.runtime
  ended : ∀ a ∈ begun, a = d.current ∨ a.start + a.period ≤ now
  budget : now < d.periodEnd → chargedIn log d.current + d.remaining ≤ d.runtime
  sane : d.active = true → 0 < d.runtime ∧ 0 < d.deadline ∧ d.deadline ≤ d.absDeadline ∧
    (d.throttled = false → 0 < d.remaining)
  timer : ∀ f ∈ timer, d.active = true ∧ d.throttled = true ∧ now ≤ f ∧
    (f = d.periodEnd ∨ (f = d.periodEnd + 1 ∧ ∀ τ ∈ log, τ < d.periodEnd) ∨
      d.periodEnd + d.deadline < f)

namespace Metered

variable {now : ℕ} {d : Entity} {timer : Option ℕ} {log : List ℕ} {begun : List Activation}

theorem init (now : ℕ) : Metered now .init none [] [] where
  past := nofun
  bound := nofun
  ended := nofun
  budget := nofun
  sane := nofun
  timer := nofun

/-- A tick in which the task is not charged. -/
theorem wait (h : Metered now d timer log begun) (hdue : timer ≠ some now) :
    Metered (now + 1) d timer log begun where
  past := fun τ hτ ↦ (h.past τ hτ).trans (Nat.lt_succ_self now)
  bound := h.bound
  ended := fun a ha ↦ (h.ended a ha).imp_right fun hle ↦ hle.trans (Nat.le_succ now)
  budget := fun hlt ↦ h.budget (Nat.lt_of_succ_lt hlt)
  sane := h.sane
  timer := by
    intro f hf
    obtain ⟨ha, ht, hle, hf'⟩ := h.timer f hf
    refine ⟨ha, ht, ?_, hf'⟩
    have hne : f ≠ now := fun hfn ↦ hdue (hfn ▸ hf)
    omega

/-- A new period is begun with nothing charged in it yet. -/
theorem activate (h : Metered now d timer log begun) (d' : Entity)
    (hover : d.periodEnd ≤ now) (hlog : ∀ τ ∈ log, τ < d'.current.start)
    (hrem : d'.remaining = d'.runtime) (hpos : 0 < d'.runtime) (hdl : 0 < d'.deadline)
    (habs : d'.deadline ≤ d'.absDeadline) :
    Metered now d' none log (d'.current :: begun) where
  past := h.past
  bound := by
    intro a ha
    rcases List.mem_cons.mp ha with rfl | ha
    · rw [chargedIn_eq_zero hlog]
      exact Nat.zero_le _
    · exact h.bound a ha
  ended := by
    intro a ha
    rcases List.mem_cons.mp ha with rfl | ha
    · exact .inl rfl
    · rcases h.ended a ha with rfl | hle
      · exact .inr hover
      · exact .inr hle
  budget := by
    intro _
    rw [chargedIn_eq_zero hlog, hrem, Nat.zero_add]
  sane := fun _ ↦ ⟨hpos, hdl, habs, fun _ ↦ hrem ▸ hpos⟩
  timer := nofun

theorem replenish (h : Metered now d (some now) log begun) :
    Metered now (d.replenish now) none log ((d.replenish now).current :: begun) := by
  obtain ⟨hact, -, -, hf⟩ := h.timer now rfl
  obtain ⟨hrt, hdl, habs, -⟩ := h.sane hact
  have hpast := h.past
  have hend : d.periodEnd = d.absDeadline - d.deadline + d.period := rfl
  have hdl' : (d.replenish now).deadline = d.deadline := rfl
  have hover : d.periodEnd ≤ now := by omega
  have hrep : (d.replenish now).absDeadline =
      if d.absDeadline + d.period < now then now + d.deadline else d.absDeadline + d.period := rfl
  refine h.activate _ hover (fun τ hτ ↦ ?_) rfl hrt hdl ?_
  · have hlt := hpast τ hτ
    change τ < (d.replenish now).absDeadline - d.deadline
    rw [hrep]
    split_ifs with hlate
    · omega
    · rcases hf with hf | ⟨hf, hlog⟩ | hf
      · omega
      · have hlt' := hlog τ hτ
        omega
      · omega
  · rw [hrep]
    split_ifs <;> omega

/-- The log with one more tick, seen from a period. -/
theorem chargedIn_cons_le (now : ℕ) (log : List ℕ) (a : Activation) :
    chargedIn (now :: log) a ≤ chargedIn log a + 1 := by
  rw [chargedIn, List.countP_cons, chargedIn]
  split_ifs <;> omega

theorem chargedIn_cons_of_le {a : Activation} (h : a.start + a.period ≤ now) :
    chargedIn (now :: log) a = chargedIn log a := by
  rw [chargedIn, List.countP_cons_of_neg, chargedIn]
  intro hin
  have hlt := (of_decide_eq_true hin).2
  omega

/-- A tick in which the task is charged. -/
theorem charge (h : Metered now d timer log begun) (hch : d.Chargeable)
    (hK : d.remaining ≤ 1 → now + 1 ≤ d.periodEnd ∨ d.periodEnd + d.deadline < now + 2) :
    Metered (now + 1) (schedDlCharge d (now + 1) 1).1
      ((schedDlCharge d (now + 1) 1).2.or timer) (now :: log) begun := by
  obtain ⟨hrt, hdl, habs, hrem⟩ := h.sane hch.1
  have hpos := hrem hch.2
  -- a task that can be charged has no callout pending
  have hnone : timer = none := by
    cases htm : timer with
    | none => rfl
    | some f => cases hch.2.symm.trans (h.timer f htm).2.1
  have hend : d.current.start + d.current.period = d.periodEnd := rfl
  have hpast : ∀ τ ∈ now :: log, τ < now + 1 := by
    intro τ hτ
    rcases List.mem_cons.mp hτ with rfl | hτ
    · exact Nat.lt_succ_self τ
    · exact (h.past τ hτ).trans (Nat.lt_succ_self now)
  have hbound : ∀ a ∈ begun, chargedIn (now :: log) a ≤ a.runtime := by
    intro a ha
    by_cases hle : a.start + a.period ≤ now
    · rw [chargedIn_cons_of_le hle]
      exact h.bound a ha
    · obtain rfl : a = d.current := (h.ended a ha).resolve_right hle
      have hb := h.budget (by omega)
      have hc := chargedIn_cons_le now log d.current
      have hr : d.current.runtime = d.runtime := rfl
      omega
  have hover : ∀ a ∈ begun, a = d.current ∨ a.start + a.period ≤ now + 1 := fun a ha ↦
    (h.ended a ha).imp_right fun hle ↦ hle.trans (Nat.le_succ now)
  have hbudget : ∀ r, r + 1 = d.remaining → now + 1 < d.periodEnd →
      chargedIn (now :: log) d.current + r ≤ d.runtime := by
    intro r hr hlt
    have hb := h.budget (by omega)
    have hc := chargedIn_cons_le now log d.current
    omega
  rw [schedDlCharge, hnone]
  split_ifs with hlast hin
  · -- exhausted inside the period: replenished at its end
    refine ⟨hpast, hbound, hover, hbudget 0 (by omega), fun _ ↦ ⟨hrt, hdl, habs, Bool.noConfusion⟩, ?_⟩
    rintro f ⟨rfl⟩
    refine ⟨hch.1, rfl, by omega, .inl ?_⟩
    change now + 1 + (d.periodEnd - (now + 1)) = d.periodEnd
    omega
  · refine ⟨hpast, hbound, hover, fun hlt ↦ absurd hlt hin, fun _ ↦ ⟨hrt, hdl, habs, Bool.noConfusion⟩, ?_⟩
    rintro f ⟨rfl⟩
    refine ⟨hch.1, rfl, by omega, .inr ?_⟩
    change now + 1 + 1 = d.periodEnd + 1 ∧ (∀ τ ∈ now :: log, τ < d.periodEnd) ∨
      d.periodEnd + d.deadline < now + 1 + 1
    rcases hK hlast with hle | hlate
    · have heq : now + 1 = d.periodEnd := by omega
      exact .inl ⟨by rw [heq], heq ▸ hpast⟩
    · exact .inr hlate
  · exact ⟨hpast, hbound, hover, hbudget (d.remaining - 1) (by omega),
      fun _ ↦ ⟨hrt, hdl, habs, fun _ ↦ by dsimp only; omega⟩, fun _ hf ↦ by cases hf⟩

/-- The task leaves the class. -/
theorem clear (h : Metered now d timer log begun) :
    Metered now { d with active := false, policy := false } none log begun :=
  ⟨h.past, h.bound, h.ended, h.budget, nofun, nofun⟩

end Metered

/-! ## Runs -/

variable [DecidableEq T] {cfg : Config} {s s' : Sys T} {e : Event T}

/-- What is known of all tasks. -/
def MeteredAll (s : Sys T) : Prop :=
  ∀ t, Metered s.now (s.dl t) (s.timer t) (s.charged t) (s.begun t)

theorem meteredAll_clearattr (h : MeteredAll s) (t : T) : MeteredAll (schedDlClearattr s t) := by
  rw [schedDlClearattr]
  split_ifs
  case neg => exact h
  intro u
  by_cases hu : u = t
  · subst hu
    simpa [Sys.setDl] using (h u).clear
  · simpa [Sys.setDl, hu] using h u

/-- Apart from the two counters, an admission is an activation and a refusal changes nothing. -/
theorem admit_cases (cfg : Config) (s : Sys T) (t : T) (rt dl pd : ℕ) :
    (∃ u n, (admission cfg s t rt dl pd).2 =
      { s.activate t ⟨true, true, rt, dl, pd, rt, s.now + dl, false⟩ with
        totalUtil := u, nrAdmitted := n }) ∨
      ∃ u, (admission cfg s t rt dl pd).2 = { s with totalUtil := u } := by
  rw [admission]
  split <;> split
  · exact .inl ⟨_, _, rfl⟩
  · exact .inr ⟨_, rfl⟩
  · exact .inl ⟨_, _, rfl⟩
  · exact .inr ⟨_, rfl⟩

theorem meteredAll_admission {t : T} {rt dl pd : ℕ} (h : MeteredAll s)
    (hK : s.timer t = none ∧ (s.dl t).periodEnd ≤ s.now) (hrt : 0 < rt) (hdl : 0 < dl) :
    MeteredAll (admission cfg s t rt dl pd).2 := by
  have hnew := (h t).activate ⟨true, true, rt, dl, pd, rt, s.now + dl, false⟩ hK.2
    (fun τ hτ ↦ by simpa [Entity.current] using (h t).past τ hτ) rfl hrt hdl (Nat.le_add_left _ _)
  have hact : MeteredAll (s.activate t ⟨true, true, rt, dl, pd, rt, s.now + dl, false⟩) := by
    intro u
    by_cases hu : u = t
    · subst hu
      simpa [Sys.activate, Sys.setDl, hK.1] using hnew
    · simpa [Sys.activate, Sys.setDl, hu] using h u
  rcases admit_cases cfg s t rt dl pd with ⟨u, n, heq⟩ | ⟨u, heq⟩
  · rw [heq]
    exact hact
  · rw [heq]
    exact h

theorem MeteredAll.step [Fintype T] (h : MeteredAll s) (hK : Punctual s e)
    (hstep : Deadline.step cfg s e = some s') : MeteredAll s' := by
  cases e with
  | setattr t a b c =>
    cases hstep
    rw [schedDlSetattr]
    split
    · exact h
    · next rt dl pd hp =>
      obtain ⟨hrt, hdl, -, -⟩ := dlParams_some hp
      exact meteredAll_admission h hK hrt hdl
  | clearattr t =>
    cases hstep
    exact meteredAll_clearattr h t
  | destroy t =>
    cases hstep
    have hclear := meteredAll_clearattr h t
    intro u
    by_cases hu : u = t
    · subst hu
      simpa [schedDlTaskDestroy, Sys.setDl] using Metered.init (schedDlClearattr s u).now
    · simpa [schedDlTaskDestroy, Sys.setDl, hu] using hclear u
  | tick runs =>
    obtain ⟨hdue, rfl⟩ := Runs.of_guard hstep
    intro t
    have hwait := (h t).wait (hdue t)
    rw [Sys.tick]
    dsimp only
    by_cases hrun : t ∈ runs
    · rw [if_pos hrun, if_pos hrun]
      by_cases hch : (s.dl t).Chargeable
      · rw [if_pos ⟨hrun, hch⟩]
        exact (h t).charge hch (hK t hrun hch)
      · rw [if_neg fun hc ↦ hch hc.2, schedDlCharge, if_pos hch]
        exact hwait
    · rw [if_neg hrun, if_neg hrun, if_neg fun hc ↦ hrun hc.1]
      exact hwait
  | replenish t =>
    obtain ⟨hdue, rfl⟩ := Runs.of_guard hstep
    have ht := h t
    rw [hdue] at ht
    intro u
    by_cases hu : u = t
    · subst hu
      simpa [dlReplenishCb, Sys.activate, Sys.setDl] using ht.replenish
    · simpa [dlReplenishCb, Sys.activate, Sys.setDl, hu] using h u

/-- **No period gets more than its runtime**, in runs in which budgets are used up inside their
period or a whole period late. -/
theorem charged_le_runtime [Fintype T] (h : Reach cfg Punctual s) (t : T) :
    ∀ a ∈ s.begun t, chargedIn (s.charged t) a ≤ a.runtime := by
  have hs : MeteredAll s :=
    Runs.Run.invariant h (fun _ ↦ Metered.init 0) fun _ _ _ hs hK hstep ↦ hs.step hK hstep
  exact (hs t).bound

/-- A tick a microsecond. -/
def usConfig : Config := ⟨⟨1, 0⟩, 95, default_le⟩

/-- The task uses up its tick in the first period and in the second. -/
theorem charged_le_runtime_two : ∃ s : Sys (Fin 1), Reach usConfig Punctual s ∧
    ⟨3, 3, 1⟩ ∈ s.begun 0 ∧ chargedIn (s.charged 0) ⟨3, 3, 1⟩ = 1 ∧
    chargedIn (s.charged 0) ⟨3, 3, 1⟩ ≤ 1 := by
  obtain ⟨s, hs, hmem, hc⟩ : ∃ s, Runs.Run (step usConfig) Punctual (Sys.boot (Fin 1)) s ∧
      ⟨3, 3, 1⟩ ∈ s.begun 0 ∧ chargedIn (s.charged 0) ⟨3, 3, 1⟩ = 1 :=
    Runs.exists_run _ Punctual _
      [.setattr 0 1000 3000 3000, .tick [0], .tick [], .tick [], .replenish 0, .tick [0]]
      (by decide +kernel)
  exact ⟨s, hs, hmem, hc, charged_le_runtime hs 0 ⟨3, 3, 1⟩ hmem⟩

/-- The task sleeps through its first period and runs after it: a tick of old budget, and one of the
budget for the period that began in the meantime. -/
theorem not_charged_le_runtime : ¬∀ s : Sys (Fin 1), Reach usConfig (fun _ _ ↦ True) s →
    ∀ t, ∀ a ∈ s.begun t, chargedIn (s.charged t) a ≤ a.runtime := by
  intro hall
  obtain ⟨s, hs, hmem, hc⟩ : ∃ s, Runs.Run (step usConfig) (fun _ _ ↦ True)
      (Sys.boot (Fin 1)) s ∧ ⟨3, 3, 1⟩ ∈ s.begun 0 ∧ chargedIn (s.charged 0) ⟨3, 3, 1⟩ = 2 :=
    Runs.exists_run _ (fun _ _ ↦ True) _
      [.setattr 0 1000 3000 3000, .tick [], .tick [], .tick [], .tick [0], .tick [],
        .replenish 0, .tick [0]]
      (by decide +kernel)
  have hle := hall s hs 0 ⟨3, 3, 1⟩ hmem
  rw [hc] at hle
  exact absurd hle (by decide)

end Mazu.Sched.Deadline
