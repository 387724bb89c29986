import Mazu.Sync.Futex

/-!
# Requeueing to the same address

`futex_cmp_requeue` walks over the list that it appends to. A waiter that goes to another address no
longer matches when it is met again, even in the same bucket; one that is requeued to the address it
came from does, and is requeued once more.

The walk is split where the wake-ups end. From there on the waiters requeued are, as far as none is
met twice, the first ones of the matching waiters still ahead, and their number is determined by how
many those are and by whether the last entry of the list is one of them.
-/

namespace Mazu.Sync.Futex

open List

set_option linter.unusedSectionVars false

open Sync.Pi Function

variable {T M : Type} [DecidableEq T] {s : Sys T M} {a a₁ a₂ : Addr} {l : Log T}
  {nrWake nrRequeue : ℕ} {u v : T}

/-! ## What the bodies change -/

theorem takeOff_frame (s : Sys T M) (u : T) (o : Option T) :
    (takeOff s u o).1.thread = s.thread ∧ waiter (takeOff s u o).1 = waiter s :=
  ⟨thread_leavePi (listDel s u) u o,
    congrArg Books.futexWaiter (books_leavePi (listDel s u) u o)⟩

theorem wakeFrom_thread (o : Option T) :
    (wakeFrom s u o).thread v = if v = u then (s.thread u).wakeReady else s.thread v := by
  rw [wakeFrom, thread_modify, setWaiter, onWorld, (takeOff_frame s u o).1]

theorem waits_wakeFrom (o : Option T) : Waits (wakeFrom s u o) v a ↔ v ≠ u ∧ Waits s v a := by
  rw [Waits, wakeFrom_thread]
  by_cases hv : v = u
  · rw [if_pos hv]
    refine ⟨fun h ↦ ?_, fun h ↦ absurd hv h.1⟩
    cases h.2
  · have hw : waiter (wakeFrom s u o) v = waiter s v :=
      (update_of_ne hv ..).trans (congrFun (takeOff_frame s u o).2 v)
    rw [if_neg hv, hw]
    exact ⟨fun h ↦ ⟨hv, h⟩, fun h ↦ h.2⟩

/-- A requeued waiter matches if it went where it came from. -/
theorem waits_requeueTo (o : Option T) (hu : Waits s u a₁) :
    Waits (requeueTo s u a₂ o) v a₁ ↔ Waits s v a₁ ∧ (v = u → a₂ = a₁) := by
  have hthread : (requeueTo s u a₂ o).thread = s.thread := (takeOff_frame s u o).1
  rw [Waits, hthread]
  by_cases hv : v = u
  · have hw : waiter (requeueTo s u a₂ o) v = { leftPi (waiter s u) with key := a₂ } := by
      rw [hv]
      exact update_self ..
    rw [hw, hv]
    exact ⟨fun h ↦ ⟨hu, fun _ ↦ h.1⟩, fun h ↦ ⟨h.2 rfl, hu.2⟩⟩
  · have hw : waiter (requeueTo s u a₂ o) v = waiter s v :=
      (update_of_ne hv ..).trans (congrFun (takeOff_frame s u o).2 v)
    rw [hw]
    exact ⟨fun h ↦ ⟨h, fun h' ↦ absurd h' hv⟩, And.left⟩

/-- The waiters of a list that the walk handles. -/
def matching (s : Sys T M) (a : Addr) (us : List T) : List T := us.filter fun u ↦ decide (Waits s u a)

variable {us : List T}

theorem matching_cons_pos (h : Waits s u a) :
    matching s a (u :: us) = u :: matching s a us := filter_cons_of_pos (by simpa using h)

theorem matching_cons_neg (h : ¬Waits s u a) :
    matching s a (u :: us) = matching s a us := filter_cons_of_neg (by simpa using h)

theorem matching_wakeFrom (o : Option T) (hu : u ∉ us) :
    matching (wakeFrom s u o) a us = matching s a us := by
  refine filter_congr fun v hv ↦ decide_eq_decide.mpr ?_
  rw [waits_wakeFrom]
  exact ⟨And.right, fun h ↦ ⟨fun h' ↦ hu (h' ▸ hv), h⟩⟩

theorem matching_requeueTo (a₂ : Addr) (o : Option T) (hu : Waits s u a₁)
    (hmem : u ∉ us ∨ a₂ = a₁) : matching (requeueTo s u a₂ o) a₁ us = matching s a₁ us := by
  refine filter_congr fun v hv ↦ decide_eq_decide.mpr ?_
  rw [waits_requeueTo o hu]
  refine ⟨And.left, fun h ↦ ⟨h, fun h' ↦ hmem.resolve_left fun hn ↦ hn (h' ▸ hv)⟩⟩

/-! ## After the wake-ups -/

/-- **The first round.** As long as none is met twice, the waiters requeued are the first ones of the
matching waiters ahead; here `ys` are those that were put behind. -/
theorem requeued_prefix (s : Sys T M) (a₁ a₂ : Addr) (nrRequeue : ℕ) (us xs ys : List T) (hus : us = xs ++ ys) (hxs : xs.Nodup)
    (hw : nrWake ≤ l.woken.length) :
    ∃ zs, (requeueWalk a₁ a₂ nrWake nrRequeue s l us).2.requeued = l.requeued ++ zs ∧
      (requeueWalk a₁ a₂ nrWake nrRequeue s l us).2.woken = l.woken ∧
      zs.take (matching s a₁ xs).length <+: matching s a₁ xs := by
  fun_induction requeueWalk a₁ a₂ nrWake nrRequeue s l us generalizing xs ys with
  | case1 s l | case5 s l u us hu hlt hreq => exact ⟨[], (append_nil _).symm, rfl, by simp⟩
  | case2 s l u us hu ih =>
    cases xs with
    | nil =>
      obtain ⟨zs, hz, hw', -⟩ := ih [] us (nil_append _).symm nodup_nil hw
      exact ⟨zs, hz, hw', by simp [matching]⟩
    | cons x xs =>
      obtain ⟨hx, hus⟩ := List.cons.inj hus
      rw [← hx, matching_cons_neg hu]
      exact ih xs ys hus (nodup_cons.mp hxs).2 hw
  | case3 s l u us hu hlt => omega
  | case4 s l u us hu hlt hreq ih =>
    have hu := not_not.mp hu
    cases xs with
    | nil =>
      obtain ⟨zs, hz, hw', -⟩ := ih [] _ (nil_append _).symm nodup_nil hw
      exact ⟨u :: zs, hz.trans (append_assoc ..), hw', by simp [matching]⟩
    | cons x xs =>
      obtain ⟨hux, hus⟩ := List.cons.inj hus
      obtain ⟨hx, hxs⟩ := nodup_cons.mp hxs
      rw [← hux] at hx ⊢
      have hsplit : ∃ ys', follow a₁ a₂ u us = xs ++ ys' := by
        rw [follow, hus]
        split_ifs
        · exact ⟨ys ++ [u], append_assoc ..⟩
        · exact ⟨ys, rfl⟩
      obtain ⟨ys', hys⟩ := hsplit
      obtain ⟨zs, hz, hw', hpre⟩ := ih xs ys' hys hxs hw
      rw [matching_requeueTo a₂ l.owner hu (.inl hx)] at hpre
      refine ⟨u :: zs, hz.trans (append_assoc ..), hw', ?_⟩
      rw [matching_cons_pos hu, length_cons]
      exact (prefix_cons_inj u).mpr hpre

/-- To another address, no more are requeued than match. -/
theorem length_requeued_of_ne (s : Sys T M) (nrRequeue : ℕ) (hne : a₂ ≠ a₁) (us : List T) (hus : us.Nodup)
    (hw : nrWake ≤ l.woken.length) :
    (requeueWalk a₁ a₂ nrWake nrRequeue s l us).2.requeued.length ≤
      l.requeued.length + (matching s a₁ us).length := by
  fun_induction requeueWalk a₁ a₂ nrWake nrRequeue s l us with
  | case1 s l | case5 s l u us hu hlt hreq => exact Nat.le_add_right ..
  | case2 s l u us hu ih =>
    rw [matching_cons_neg hu]
    exact ih (nodup_cons.mp hus).2 hw
  | case3 s l u us hu hlt => omega
  | case4 s l u us hu hlt hreq ih =>
    have hu := not_not.mp hu
    obtain ⟨hx, hus⟩ := nodup_cons.mp hus
    have hgone : ¬Waits (requeueTo s u a₂ l.owner) u a₁ := by
      rw [waits_requeueTo _ hu]
      exact fun h ↦ hne (h.2 rfl)
    have hmatch : matching (requeueTo s u a₂ l.owner) a₁ (follow a₁ a₂ u us) = matching s a₁ us := by
      rw [← matching_requeueTo a₂ l.owner hu (.inl hx), follow]
      split_ifs
      · rw [matching, filter_append, filter_singleton, decide_eq_false hgone]
        exact append_nil _
      · rfl
    have hnodup : (follow a₁ a₂ u us).Nodup := by
      rw [follow]
      split_ifs
      · exact hus.append (nodup_singleton u) (disjoint_singleton.mpr hx)
      · exact hus
    have h := ih hnodup hw
    rw [hmatch, length_append, length_singleton] at h
    rw [matching_cons_pos hu, length_cons]
    omega

/-- How many are requeued to the address they came from: with two of them ahead the walk never
reaches an end. -/
def laps (quota ahead : ℕ) (last : Prop) [Decidable last] : ℕ :=
  if ahead = 0 then 0 else if ahead = 1 then min quota (if last then 1 else 2) else quota

/-- The last entry of the list matches. -/
def LastWaits (s : Sys T M) (a : Addr) (us : List T) : Prop := ∃ u, us.getLast? = some u ∧ Waits s u a

instance (us : List T) : Decidable (LastWaits s a us) :=
  decidable_of_iff (us.getLast?.any fun u ↦ decide (Waits s u a)) (by
    rw [LastWaits, Option.any_eq_true]
    simp)

theorem lastWaits_cons (h : us ≠ []) :
    LastWaits s a (u :: us) ↔ LastWaits s a us := by
  rw [LastWaits, LastWaits, getLast?_cons, getLast?_eq_getLast_of_ne_nil h]
  rfl

theorem LastWaits.pos (h : LastWaits s a us) : 0 < (matching s a us).length := by
  obtain ⟨u, hu, hm⟩ := h
  exact length_pos_of_mem (mem_filter.mpr ⟨mem_of_getLast? hu, by simpa using hm⟩)

/-- **The number requeued to the same address.** -/
theorem length_requeued_same (s : Sys T M) (a : Addr) (nrRequeue : ℕ) (us : List T) (hw : nrWake ≤ l.woken.length) :
    (requeueWalk a a nrWake nrRequeue s l us).2.requeued.length = l.requeued.length +
      laps (nrRequeue - l.requeued.length) (matching s a us).length (LastWaits s a us) := by
  fun_induction requeueWalk a a nrWake nrRequeue s l us with
  | case1 s l => rfl
  | case2 s l u us hu ih =>
    rw [ih hw, matching_cons_neg hu]
    by_cases hnil : us = []
    · rw [hnil]
      rfl
    · simp only [lastWaits_cons hnil]
  | case3 s l u us hu hlt => omega
  | case4 s l u us hu hlt hreq ih =>
    have hu := not_not.mp hu
    have h := ih hw
    rw [matching_requeueTo _ _ hu (.inr rfl), length_append, length_singleton] at h
    rw [h, matching_cons_pos hu, length_cons]
    by_cases hnil : us = []
    · subst hnil
      have hlast : LastWaits s a [u] := ⟨u, rfl, hu⟩
      rw [follow, if_neg fun h ↦ h.2 rfl]
      simp only [matching, filter_nil, length_nil, laps, if_pos hlast, if_true, if_false,
        Nat.zero_add, Nat.one_ne_zero]
      omega
    · have hback : Waits (requeueTo s u a l.owner) u a := (waits_requeueTo _ hu).mpr ⟨hu, fun _ ↦ rfl⟩
      have hlast : LastWaits (requeueTo s u a l.owner) a (us ++ [u]) :=
        ⟨u, getLast?_concat, hback⟩
      have hcount : (matching s a (us ++ [u])).length = (matching s a us).length + 1 := by
        rw [matching, filter_append, filter_singleton, decide_eq_true hu]
        exact length_append
      rw [follow, if_pos ⟨rfl, hnil⟩, hcount, laps, laps, if_pos hlast]
      by_cases hone : (matching s a us).length = 0
      · have hnot : ¬LastWaits s a (u :: us) := by
          rw [lastWaits_cons hnil]
          exact fun h ↦ absurd h.pos (by omega)
        rw [if_neg hnot, hone]
        simp only [Nat.zero_add, Nat.one_ne_zero, if_true, if_false]
        omega
      · rw [if_neg (by omega), if_neg (by omega), if_neg (by omega), if_neg (by omega)]
        omega
  | case5 s l u us hu hlt hreq =>
    have hzero : nrRequeue - l.requeued.length = 0 := by omega
    rw [hzero, laps]
    split_ifs <;> simp

/-! ## The whole walk -/

/-- **The wake-ups come first.** They take up the list to where the walk ends or `nrWake` have been
woken; what is left is as it was. -/
theorem requeueWalk_wakes (s : Sys T M) (l : Log T) (a₁ a₂ : Addr) (nrRequeue : ℕ) (us : List T) (hus : us.Nodup) (hle : l.woken.length ≤ nrWake) :
    ∃ s' l' pre us', us = pre ++ us' ∧ (∀ v ∈ us', Waits s' v a₁ ↔ Waits s v a₁) ∧
      l'.woken = l.woken ++ matching s a₁ pre ∧ l'.requeued = l.requeued ∧
      (us' = [] ∧ l'.woken.length ≤ nrWake ∨ l'.woken.length = nrWake) ∧
      requeueWalk a₁ a₂ nrWake nrRequeue s l us = requeueWalk a₁ a₂ nrWake nrRequeue s' l' us' := by
  induction us generalizing s l with
  | nil => exact ⟨s, l, [], [], rfl, nofun, (append_nil _).symm, rfl, .inl ⟨rfl, hle⟩, rfl⟩
  | cons u us ih =>
    by_cases hdone : l.woken.length = nrWake
    · exact ⟨s, l, [], u :: us, rfl, fun _ _ ↦ .rfl, (append_nil _).symm, rfl, .inr hdone, rfl⟩
    obtain ⟨hx, hus⟩ := nodup_cons.mp hus
    by_cases hu : Waits s u a₁
    · have hlt : l.woken.length < nrWake := by omega
      obtain ⟨s', l', pre, us', heq, hsame, hwoken, hreq, hend, hwalk⟩ := ih (wakeFrom s u l.owner)
        { l with woken := l.woken ++ [u], owner := (takeOff s u l.owner).2 } hus
        (by rw [length_append, length_singleton]; exact hlt)
      have hpre : u ∉ pre := fun h ↦ hx (heq ▸ mem_append_left us' h)
      refine ⟨s', l', u :: pre, us', by rw [heq]; rfl, fun v hv ↦ ?_, ?_, hreq, hend, ?_⟩
      · have hvu : v ≠ u := fun h ↦ hx (heq ▸ mem_append_right pre (h ▸ hv))
        rw [hsame v hv, waits_wakeFrom]
        exact ⟨And.right, fun h ↦ ⟨hvu, h⟩⟩
      · rw [hwoken, matching_wakeFrom _ hpre, matching_cons_pos hu, append_assoc]
        rfl
      · rw [requeueWalk, if_neg (not_not.mpr hu), if_pos hlt, hwalk]
    · obtain ⟨s', l', pre, us', heq, hsame, hwoken, hreq, hend, hwalk⟩ := ih s l hus hle
      refine ⟨s', l', u :: pre, us', by rw [heq]; rfl, hsame, ?_, hreq, hend, ?_⟩
      · rw [hwoken, matching_cons_neg hu]
      · rw [requeueWalk, if_pos hu, hwalk]

/-- The threads that wait on the address. -/
def waiting (s : Sys T M) (a : Addr) : List T := matching s a (s.obj.world.waiters (futexHash a))

/-- The walk that `futex_cmp_requeue` makes once the word was found to hold the expected value. -/
def cmpRequeueLog (s : Sys T M) (a₁ a₂ : Addr) (nrWake nrRequeue : ℕ) : Log T :=
  (requeueWalk a₁ a₂ nrWake nrRequeue s ⟨[], [], none⟩ (s.obj.world.waiters (futexHash a₁))).2

/-- Requeueing stays within one round: to another address, or with no more to requeue than wait
beyond those woken, or with a single one that is last in its list. -/
def OneRound (s : Sys T M) (a₁ a₂ : Addr) (nrWake nrRequeue : ℕ) : Prop :=
  a₂ ≠ a₁ ∨ (waiting s a₁).length ≤ nrWake ∨ nrRequeue ≤ (waiting s a₁).length - nrWake ∨
    (waiting s a₁).length = nrWake + 1 ∧ LastWaits s a₁ (s.obj.world.waiters (futexHash a₁))

theorem matching_append (s : Sys T M) (a : Addr) (us vs : List T) :
    matching s a (us ++ vs) = matching s a us ++ matching s a vs := filter_append ..

theorem LastWaits.congr {s' : Sys T M} (h : ∀ v ∈ us, Waits s' v a ↔ Waits s v a) :
    LastWaits s' a us ↔ LastWaits s a us :=
  exists_congr fun u ↦ and_congr_right fun hu ↦ h u (mem_of_getLast? hu)

theorem laps_le_iff (quota ahead : ℕ) (last : Prop) [Decidable last] :
    laps quota ahead last ≤ ahead ↔ ahead = 0 ∨ quota ≤ ahead ∨ ahead = 1 ∧ last := by
  rw [laps]
  split_ifs with h0 h1 hlast
  · simp [h0]
  · simp [h1, hlast]
  · subst h1
    simp only [hlast, and_false, or_false]
    omega
  · simp only [h0, h1, false_and, or_false, false_or]

/-- **The account of a walk**: the first `nrWake` are woken, and those requeued are in one round the
next ones. -/
theorem cmpRequeueLog_account (a₂ : Addr) (nrWake nrRequeue : ℕ)
    (hq : (s.obj.world.waiters (futexHash a₁)).Nodup) :
    (cmpRequeueLog s a₁ a₂ nrWake nrRequeue).woken = (waiting s a₁).take nrWake ∧
      (cmpRequeueLog s a₁ a₂ nrWake nrRequeue).requeued.take ((waiting s a₁).length - nrWake) <+:
        (waiting s a₁).drop nrWake ∧
      ((cmpRequeueLog s a₁ a₂ nrWake nrRequeue).requeued.length ≤ (waiting s a₁).length - nrWake ↔
        OneRound s a₁ a₂ nrWake nrRequeue) := by
  obtain ⟨s', l', pre, us, heq, hsame, hwoken, hreq, hend, hwalk⟩ :=
    requeueWalk_wakes s ⟨[], [], none⟩ a₁ a₂ nrRequeue _ hq (Nat.zero_le nrWake)
  have hall : waiting s a₁ = matching s a₁ pre ++ matching s a₁ us := by
    rw [waiting, heq, matching_append]
  rw [nil_append] at hwoken
  rw [cmpRequeueLog, hwalk]
  rcases hend with ⟨hnil, hle⟩ | hall'
  · rw [hnil, show matching s a₁ [] = [] from rfl, append_nil, ← hwoken] at hall
    rw [hnil, requeueWalk, hreq, hall]
    refine ⟨(take_of_length_le hle).symm, by simp, ?_⟩
    exact iff_of_true (Nat.zero_le _) (.inr (.inl (hall ▸ hle)))
  have hpre : (matching s a₁ pre).length = nrWake := hwoken ▸ hall'
  have hm : matching s' a₁ us = matching s a₁ us :=
    filter_congr fun v hv ↦ decide_eq_decide.mpr (hsame v hv)
  have hlen : (waiting s a₁).length - nrWake = (matching s a₁ us).length := by
    rw [hall, length_append]
    omega
  have hus : us.Nodup := (nodup_append.mp (heq ▸ hq)).2.1
  obtain ⟨zs, hz, hw, hzs⟩ := requeued_prefix s' a₁ a₂ nrRequeue us us [] (append_nil _).symm hus hall'.ge
  rw [hreq] at hz
  rw [hm] at hzs
  refine ⟨?_, ?_, ?_⟩
  · rw [hw, hwoken, hall, ← hpre, take_left]
  · rw [hz, hlen, hall, ← hpre, drop_left]
    exact hzs
  rw [hlen]
  by_cases hne : a₂ = a₁
  · subst hne
    have hlast : (matching s a₂ us).length ≠ 0 →
        (LastWaits s' a₂ us ↔ LastWaits s a₂ (s.obj.world.waiters (futexHash a₂))) := by
      intro h
      have hnil : us ≠ [] := by
        rintro rfl
        exact h rfl
      rw [LastWaits.congr hsame, heq, LastWaits, LastWaits, getLast?_append_of_ne_nil _ hnil]
    have hcount := length_requeued_same s' a₂ nrRequeue us hall'.ge
    rw [hreq, hm, length_nil, Nat.zero_add] at hcount
    rw [hcount, laps_le_iff, ← hlen]
    have hone : (waiting s a₂).length - nrWake = 1 ↔ (waiting s a₂).length = nrWake + 1 := by omega
    constructor
    · rintro (h | h | ⟨h, hl⟩)
      · exact .inr (.inl (by omega))
      · exact .inr (.inr (.inl h))
      · exact .inr (.inr (.inr ⟨hone.mp h, (hlast (by omega)).mp hl⟩))
    · rintro (h | h | h | ⟨h, hl⟩)
      · exact absurd rfl h
      · exact .inl (by omega)
      · exact .inr (.inl h)
      · exact .inr (.inr ⟨hone.mpr h, (hlast (by omega)).mpr hl⟩)
  · have hle := length_requeued_of_ne s' nrRequeue hne us hus hall'.ge
    rw [hreq, hm, length_nil, Nat.zero_add] at hle
    exact iff_of_true hle (.inl hne)

/-! ## The call -/

/-- The threads that a call of `futex_cmp_requeue` wakes, and then those that it requeues. -/
def handled (s : Sys T M) (a₁ : Addr) (expected : ℕ) (a₂ : Addr) (nrWake nrRequeue : ℕ) : List T :=
  if s.obj.mem.copyFromUser a₁ 4 = some expected then
    (cmpRequeueLog s a₁ a₂ nrWake nrRequeue).woken ++ (cmpRequeueLog s a₁ a₂ nrWake nrRequeue).requeued
  else []

theorem futexCmpRequeue_result [DecidableEq M] (s : Sys T M) (a₁ : Addr) (expected : ℕ) (a₂ : Addr)
    (nrWake nrRequeue : ℕ) :
    (futexCmpRequeue s a₁ expected a₂ nrWake nrRequeue).2 =
        (handled s a₁ expected a₂ nrWake nrRequeue).length ∨
      s.obj.mem.copyFromUser a₁ 4 ≠ some expected ∧
        (futexCmpRequeue s a₁ expected a₂ nrWake nrRequeue).2 < 0 := by
  rw [futexCmpRequeue, handled]
  cases hm : s.obj.mem.copyFromUser a₁ 4 with
  | none => exact .inr ⟨nofun, show -efault < 0 by decide⟩
  | some x =>
    by_cases hx : x = expected
    · left
      simp only [hx, ne_eq, if_true, length_append]
      exact (Int.natCast_add ..).symm
    · right
      simp only [ne_eq, hx, not_false_iff, if_true, Option.some.injEq]
      decide

/-- A longer list than there are waiters has one of them twice, or one that does not wait. -/
theorem handled_once_iff (s : Sys T M) (a₁ : Addr) (expected : ℕ) (a₂ : Addr) (nrWake nrRequeue : ℕ)
    (hq : (s.obj.world.waiters (futexHash a₁)).Nodup) :
    ((handled s a₁ expected a₂ nrWake nrRequeue).Nodup ∧
      (handled s a₁ expected a₂ nrWake nrRequeue).length ≤ (waiting s a₁).length) ↔
    s.obj.mem.copyFromUser a₁ 4 ≠ some expected ∨ OneRound s a₁ a₂ nrWake nrRequeue := by
  rw [handled]
  by_cases hm : s.obj.mem.copyFromUser a₁ 4 = some expected
  swap
  · rw [if_neg hm]
    exact iff_of_true ⟨nodup_nil, Nat.zero_le _⟩ (.inl hm)
  obtain ⟨hwoken, hpre, hround⟩ :=
    cmpRequeueLog_account a₂ nrWake nrRequeue hq
  rw [if_pos hm, hwoken]
  constructor
  · rintro ⟨-, hlen⟩
    rw [length_append, length_take] at hlen
    refine .inr (hround.mp ?_)
    omega
  · rintro (h | h)
    · exact absurd hm h
    · rw [take_of_length_le (hround.mpr h)] at hpre
      have hall : (waiting s a₁).take nrWake ++ (cmpRequeueLog s a₁ a₂ nrWake nrRequeue).requeued <+:
          waiting s a₁ := by
        conv_rhs => rw [← take_append_drop nrWake (waiting s a₁)]
        exact (prefix_append_right_inj _).mpr hpre
      exact ⟨(hq.filter _).sublist hall.sublist, hall.length_le⟩

/-- **Each waiter is handled at most once**, and the result counts no more than were waiting, exactly
when requeueing stays within one round. -/
theorem futexCmpRequeue_once_iff [DecidableEq M] (s : Sys T M) (a₁ : Addr) (expected : ℕ) (a₂ : Addr)
    (nrWake nrRequeue : ℕ) (hq : (s.obj.world.waiters (futexHash a₁)).Nodup) :
    ((handled s a₁ expected a₂ nrWake nrRequeue).Nodup ∧
      (futexCmpRequeue s a₁ expected a₂ nrWake nrRequeue).2 ≤ (waiting s a₁).length) ↔
    s.obj.mem.copyFromUser a₁ 4 ≠ some expected ∨ OneRound s a₁ a₂ nrWake nrRequeue := by
  rw [← handled_once_iff s a₁ expected a₂ nrWake nrRequeue hq]
  refine and_congr_right fun _ ↦ ?_
  rcases futexCmpRequeue_result s a₁ expected a₂ nrWake nrRequeue with hres | ⟨hne, hneg⟩
  · rw [hres, Int.ofNat_le]
  · refine iff_of_true (hneg.le.trans (Int.natCast_nonneg _)) ?_
    rw [handled, if_neg hne]
    exact Nat.zero_le _

/-- Three threads wait on a word in zeroed memory. -/
def threeWait : Sys (Fin 3) Unit :=
  let s := boot (fun _ ↦ 1) (fun t ↦ t.val + 1) [0, 1, 2] ⟨fun _ ↦ 0, fun _ ↦ true, fun _ ↦ true⟩
    fun _ ↦ ⟨0, 0, 0⟩
  futexWait (futexWait (futexWait s 0 0x1000 0) 1 0x1000 0) 2 0x1000 0

/-- One is woken and two are requeued to another word. -/
theorem futexCmpRequeue_once_three :
    (handled threeWait 0x1000 0 0x2000 1 5).Nodup ∧
      (futexCmpRequeue threeWait 0x1000 0 0x2000 1 5).2 ≤ 3 := by
  have h := (futexCmpRequeue_once_iff threeWait 0x1000 0 0x2000 1 5 (by decide +kernel)).mpr
    (.inr (.inl (by decide)))
  have hthree : (waiting threeWait 0x1000).length = 3 := by decide +kernel
  rw [hthree] at h
  exact h

/-- **A requeue to the same word** goes round: with one to wake and three to requeue, as the system
call can ask for, more are counted than the three that wait. -/
theorem not_futexCmpRequeue_once :
    ¬((handled threeWait 0x1000 0 0x1000 1 3).Nodup ∧
      (futexCmpRequeue threeWait 0x1000 0 0x1000 1 3).2 ≤ (waiting threeWait 0x1000).length) := by
  rintro ⟨hn, hle⟩
  have hmem : threeWait.obj.mem.copyFromUser 0x1000 4 = some 0 := by decide +kernel
  have hround : ¬OneRound threeWait 0x1000 0x1000 1 3 := by
    have hthree : (waiting threeWait 0x1000).length = 3 := by decide +kernel
    rw [OneRound, hthree]
    simp
  rcases futexCmpRequeue_result threeWait 0x1000 0 0x1000 1 3 with hres | ⟨hne, -⟩
  · rw [hres, Int.ofNat_le] at hle
    rcases (handled_once_iff threeWait 0x1000 0 0x1000 1 3 (by decide +kernel)).mp ⟨hn, hle⟩ with h | h
    · exact h hmem
    · exact hround h
  · exact hne hmem

end Mazu.Sync.Futex
