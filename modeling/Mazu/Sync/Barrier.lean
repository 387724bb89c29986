import Mazu.Lib.Tally
import Mazu.Sync.Threads

/-!
# Barriers

An arrival counts down; the last one resets the count, starts the next generation and wakes all that
wait. A waiter leaves when the generation is no longer the one that it came in, or when its wait is
aborted, and then it undoes its arrival. Its callback undoes the arrival too.

The accounts of a barrier are right as long as each arrival is undone at most once: the number of
arrivals still needed and of those that wait for the present generation add up to the barrier's
size, and every thread inside is counted once. A nudge breaks this, since the callback that it runs
is followed by the waiter's own abort.
-/

namespace Mazu.Sync.Barrier

open Function List

/-- `struct barrier_waiter` in the frame of a thread. -/
structure Waiter where
  waitGen : ℕ
  result : ℤ
  deriving DecidableEq

/-- `struct barrier`, the records of its waiters, and what each thread's last call returned, which is
`none` for an aborted one. -/
structure Bar (T : Type) where
  tripCount : ℕ
  count : ℕ
  generation : ℕ
  activeWaiters : ℕ
  waiters : List T
  waiter : T → Waiter
  ret : T → Option ℤ

/-- `PTHREAD_BARRIER_SERIAL_THREAD`. -/
def serialThread : ℤ := -1

/-- `barrier_init`. -/
def Bar.init (T : Type) (count : ℕ) : Bar T where
  tripCount := count
  count := count
  generation := 0
  activeWaiters := 0
  waiters := []
  waiter _ := ⟨0, 0⟩
  ret _ := none

def incU32 (n : ℕ) : ℕ := (n + 1) % 2 ^ 32

def decU32 (n : ℕ) : ℕ := if n = 0 then 2 ^ 32 - 1 else n - 1

theorem incU32_of_lt {n : ℕ} (h : n + 1 < 2 ^ 32) : incU32 n = n + 1 := Nat.mod_eq_of_lt h

theorem decU32_of_pos {n : ℕ} (h : 0 < n) : decU32 n = n - 1 := if_neg (Nat.ne_of_gt h)

abbrev Sys (T : Type) := Sync.Sys (Bar T) T

section Model

variable {T : Type} [DecidableEq T] (s : Sys T) (t : T)

def barrierWaitCleanup : Sys T :=
  if t ∈ s.obj.waiters then
    { s with obj := { s.obj with
      waiters := s.obj.waiters.erase t
      count := incU32 s.obj.count
      activeWaiters := decU32 s.obj.activeWaiters } }
  else s

/-- A waiter is taken off the queue and woken, the first one with the serial result. -/
def wakeOne (first : Bool) (rest : List T) : Sys T :=
  Sys.modify { s with obj := { s.obj with
    waiters := rest
    waiter := update s.obj.waiter t
      { s.obj.waiter t with result := if first then serialThread else 0 } } } t Thread.wakeReady

def wakeAll (s : Sys T) : Bool → List T → Sys T
  | _, [] => s
  | first, t :: ts => wakeAll (wakeOne s t first ts) false ts

def nextGeneration : Sys T :=
  { s with obj := { s.obj with
    count := s.obj.tripCount, generation := incU32 s.obj.generation } }

/-- The last arrival. It is the serial one when nobody waits. -/
def trip : Sys T :=
  let s' := wakeAll (nextGeneration s) true s.obj.waiters
  { s' with obj := { s'.obj with
    activeWaiters := decU32 s'.obj.activeWaiters
    ret := update s'.obj.ret t
      (some (if s.obj.waiters.isEmpty then serialThread else 0)) } }

def block : Sys T :=
  Sys.modify { s with obj := { s.obj with
    waiters := s.obj.waiters ++ [t]
    waiter := update s.obj.waiter t ⟨s.obj.generation, 0⟩ } } t (·.block .blocked)

/-- The end of a wait. -/
def leave (count : ℕ) (ret : Option ℤ) : Sys T :=
  Sys.modify { s with obj := { s.obj with
    waiters := s.obj.waiters.erase t
    count := count
    activeWaiters := decU32 s.obj.activeWaiters
    ret := update s.obj.ret t ret } } t (·.unblock .blocked)

/-- One pass of the waiting loop. -/
def loopBody : Sys T :=
  if s.obj.generation = (s.obj.waiter t).waitGen then
    if (s.thread t).abort then leave s t (incU32 s.obj.count) none else s
  else leave s t s.obj.count (some (s.obj.waiter t).result)

def arrive : Sys T :=
  { s with obj := { s.obj with
    activeWaiters := incU32 s.obj.activeWaiters, count := decU32 s.obj.count } }

def barrierWaitInterruptible : Sys T :=
  if (arrive s).obj.count = 0 then trip (arrive s) t else loopBody (block (arrive s) t) t

inductive Event (T : Type)
  | env (e : Env T)
  | wait (t : T)
  /-- The thread runs again inside its wait. -/
  | resume (t : T)

def step (s : Sys T) : Event T → Option (Sys T)
  | .env e => envStep barrierWaitCleanup s e
  | .wait t =>
    if (s.thread t).Runs ∧ (s.thread t).inside = false then some (barrierWaitInterruptible s t)
    else none
  | .resume t =>
    if (s.thread t).Runs ∧ (s.thread t).inside = true then some (loopBody s t) else none

/-- The states that a barrier reaches from `barrier_init`. -/
def Reach (n : ℕ) (K : Sys T → Event T → Prop) (s : Sys T) : Prop :=
  Runs.Run step K (.boot (Bar.init T n)) s

end Model

/-! ## The accounts -/

/-- The thread is inside `barrier_wait`. -/
def In {T : Type} (s : Sys T) (u : T) : Prop :=
  (s.thread u).inside = true ∧ (s.thread u).reaped = false

instance {T : Type} (s : Sys T) (u : T) : Decidable (In s u) := inferInstanceAs (Decidable (_ ∧ _))

variable {T : Type} [DecidableEq T] [Fintype T] {n : ℕ} {s s' : Sys T} {t : T}

structure Balanced (n : ℕ) (s : Sys T) : Prop where
  size : s.obj.tripCount = n ∧ n < 2 ^ 32
  nodup : s.obj.waiters.Nodup
  waiting : ∀ u, u ∈ s.obj.waiters ↔ In s u ∧ (s.obj.waiter u).waitGen = s.obj.generation
  count : s.obj.count + s.obj.waiters.length = n
  pos : 0 < s.obj.count
  active : s.obj.activeWaiters = ∑ u, if In s u then 1 else 0
  fits : s.obj.activeWaiters < 2 ^ 32
  off : ∀ u, (s.thread u).reaped = true → (s.thread u).onCpu = false

namespace Balanced

omit [DecidableEq T] in
theorem congr (h : Balanced n s) (hobj : s'.obj = s.obj) (hin : ∀ u, In s' u ↔ In s u)
    (hoff : ∀ u, (s'.thread u).reaped = true → (s'.thread u).onCpu = false) : Balanced n s' where
  size := hobj ▸ h.size
  nodup := hobj ▸ h.nodup
  waiting u := by
    rw [hobj, hin]
    exact h.waiting u
  count := hobj ▸ h.count
  pos := hobj ▸ h.pos
  active := by
    simp_rw [hobj, hin]
    exact h.active
  fits := hobj ▸ h.fits
  off := hoff

/-- A thread goes, and its arrival is undone when it was on the queue. -/
theorem drop (h : Balanced n s) (ht : In s t) (hth : ∀ u ≠ t, In s' u ↔ In s u) (hout : ¬In s' t)
    (hsize : s'.obj.tripCount = s.obj.tripCount) (hg : s'.obj.generation = s.obj.generation)
    (hw : ∀ u ≠ t, (s'.obj.waiter u).waitGen = (s.obj.waiter u).waitGen)
    (hq : s'.obj.waiters = s.obj.waiters.erase t)
    (hc : s'.obj.count = if t ∈ s.obj.waiters then incU32 s.obj.count else s.obj.count)
    (ha : s'.obj.activeWaiters = decU32 s.obj.activeWaiters)
    (hoff : ∀ u, (s'.thread u).reaped = true → (s'.thread u).onCpu = false) : Balanced n s' := by
  have hsum := Tally.sum_add_of_eq_off (i := t) (f := fun u ↦ if In s' u then 1 else 0)
    (g := fun u ↦ if In s u then 1 else 0) fun u hu ↦ by simp only [hth u hu]
  rw [← h.active, if_pos ht, if_neg hout] at hsum
  have hact : s'.obj.activeWaiters = s.obj.activeWaiters - 1 :=
    ha.trans (decU32_of_pos (by omega))
  have hcount : s'.obj.count + s'.obj.waiters.length = n ∧ 0 < s'.obj.count := by
    have hn := h.count
    have hpos := h.pos
    rw [hc, hq]
    split_ifs with hl
    · have hlen := length_erase_of_mem hl
      have hlen' := length_pos_of_mem hl
      have hlt := h.size.2
      rw [incU32_of_lt (by omega)]
      omega
    · rw [erase_of_not_mem hl]
      exact ⟨hn, hpos⟩
  refine ⟨⟨hsize.trans h.size.1, h.size.2⟩, hq ▸ h.nodup.erase t, fun u ↦ ?_, hcount.1, hcount.2,
    by omega, ?_, hoff⟩
  · rw [hq]
    by_cases hu : u = t
    · rw [hu]
      exact ⟨fun hl ↦ absurd hl h.nodup.not_mem_erase, fun hin ↦ absurd hin.1 hout⟩
    · rw [mem_erase_of_ne hu, hth u hu, hw u hu, hg]
      exact h.waiting u
  · have hfits := h.fits
    omega

theorem leave (h : Balanced n s) (ht : In s t) (ret : Option ℤ) {c : ℕ}
    (hc : c = if t ∈ s.obj.waiters then incU32 s.obj.count else s.obj.count) :
    Balanced n (leave s t c ret) := by
  have hth : ∀ u, (Barrier.leave s t c ret).thread u =
      if u = t then (s.thread t).unblock .blocked else s.thread u := fun u ↦ thread_modify ..
  refine h.drop ht (fun u hu ↦ ?_) ?_ rfl rfl (fun _ _ ↦ rfl) rfl hc rfl fun u ↦ ?_
  · rw [In, In, hth, if_neg hu]
  · rw [In, hth, if_pos rfl]
    exact fun hin ↦ nomatch hin.1
  · rw [hth]
    split_ifs with hu
    · exact hu ▸ h.off u
    · exact h.off u

theorem loopBody (h : Balanced n s) (ht : In s t) : Balanced n (loopBody s t) := by
  have hl := h.waiting t
  rw [Barrier.loopBody]
  split_ifs with hgen
  · exact h.leave ht none (if_pos (hl.mpr ⟨ht, hgen.symm⟩)).symm
  · exact h
  · exact h.leave ht _ (if_neg fun hl' ↦ hgen (hl.mp hl').2.symm).symm

/-! ## Arrivals -/

theorem block (h : Balanced n s) (ht : ¬In s t) (hr : (s.thread t).reaped = false)
    (hc : s.obj.count ≠ 1) (hfits : s.obj.activeWaiters + 1 < 2 ^ 32) :
    Balanced n (block (arrive s) t) := by
  have hth : ∀ u, (Barrier.block (arrive s) t).thread u =
      if u = t then (s.thread t).block .blocked else s.thread u := fun u ↦ thread_modify ..
  have hw : ∀ u, (Barrier.block (arrive s) t).obj.waiter u =
      if u = t then ⟨s.obj.generation, 0⟩ else s.obj.waiter u := fun u ↦ update_apply ..
  have hin : In (Barrier.block (arrive s) t) t := by
    rw [In, hth, if_pos rfl]
    exact ⟨rfl, hr⟩
  have hoth : ∀ u ≠ t, In (Barrier.block (arrive s) t) u ↔ In s u := by
    intro u hu
    rw [In, In, hth, if_neg hu]
  have hnot : t ∉ s.obj.waiters := fun hl ↦ ht ((h.waiting t).mp hl).1
  have hsum := Tally.sum_add_of_eq_off (i := t)
    (f := fun u ↦ if In (Barrier.block (arrive s) t) u then 1 else 0)
    (g := fun u ↦ if In s u then 1 else 0) fun u hu ↦ by simp only [hoth u hu]
  rw [← h.active, if_pos hin, if_neg ht] at hsum
  have hpos := h.pos
  have hn := h.count
  have hlt := h.size.2
  have hcount : (Barrier.block (arrive s) t).obj.count = decU32 s.obj.count := rfl
  have hact : (Barrier.block (arrive s) t).obj.activeWaiters = incU32 s.obj.activeWaiters := rfl
  rw [decU32_of_pos hpos] at hcount
  rw [incU32_of_lt hfits] at hact
  refine ⟨h.size, ?_, fun u ↦ ?_, ?_, by omega, by omega, by omega, fun u ↦ ?_⟩
  · exact nodup_append.mpr ⟨h.nodup, nodup_singleton t,
      fun a ha b hb hab ↦ hnot (mem_singleton.mp hb ▸ hab ▸ ha)⟩
  · rw [hw]
    split_ifs with hu
    · rw [hu]
      exact ⟨fun _ ↦ ⟨hin, rfl⟩, fun _ ↦ mem_append_right _ (mem_singleton_self t)⟩
    · have hmem : u ∈ (Barrier.block (arrive s) t).obj.waiters ↔ u ∈ s.obj.waiters :=
        mem_append.trans (or_iff_left fun hu' ↦ hu (mem_singleton.mp hu'))
      rw [hmem, hoth u hu]
      exact h.waiting u
  · have hlen : (Barrier.block (arrive s) t).obj.waiters.length = s.obj.waiters.length + 1 :=
      length_append
    omega
  · rw [hth]
    split_ifs with hu
    · exact hu ▸ h.off u
    · exact h.off u

end Balanced

/-- What waking the queue leaves alone. -/
structure Woken (s s' : Sys T) : Prop where
  size : s'.obj.tripCount = s.obj.tripCount
  count : s'.obj.count = s.obj.count
  generation : s'.obj.generation = s.obj.generation
  active : s'.obj.activeWaiters = s.obj.activeWaiters
  waitGen : ∀ u, (s'.obj.waiter u).waitGen = (s.obj.waiter u).waitGen
  thread : ∀ u, (s'.thread u).inside = (s.thread u).inside ∧
    (s'.thread u).reaped = (s.thread u).reaped ∧ (s'.thread u).onCpu = (s.thread u).onCpu

omit [Fintype T] in
theorem woken_wakeOne (s : Sys T) (t : T) (first : Bool) (rest : List T) :
    Woken s (wakeOne s t first rest) := by
  have hth : ∀ u, (wakeOne s t first rest).thread u =
      if u = t then (s.thread t).wakeReady else s.thread u := fun u ↦ thread_modify ..
  have hw : ∀ u, (wakeOne s t first rest).obj.waiter u = if u = t then
      { s.obj.waiter t with result := if first then serialThread else 0 } else s.obj.waiter u :=
    fun u ↦ update_apply ..
  refine ⟨rfl, rfl, rfl, rfl, fun u ↦ ?_, fun u ↦ ?_⟩
  · rw [hw]
    by_cases hu : u = t
    · rw [if_pos hu, hu]
    · rw [if_neg hu]
  · rw [hth]
    split_ifs with hu
    · rw [hu]
      exact ⟨rfl, rfl, rfl⟩
    · exact ⟨rfl, rfl, rfl⟩

omit [Fintype T] in
theorem woken_wakeAll (s : Sys T) (first : Bool) (ts : List T) (hq : s.obj.waiters = ts) :
    Woken s (wakeAll s first ts) ∧ (wakeAll s first ts).obj.waiters = [] := by
  induction ts generalizing s first with
  | nil => exact ⟨⟨rfl, rfl, rfl, rfl, fun _ ↦ rfl, fun _ ↦ ⟨rfl, rfl, rfl⟩⟩, hq⟩
  | cons t ts ih =>
    have h1 := woken_wakeOne s t first ts
    obtain ⟨h2, hnil⟩ := ih (wakeOne s t first ts) false rfl
    refine ⟨⟨h2.size.trans h1.size, h2.count.trans h1.count, h2.generation.trans h1.generation,
      h2.active.trans h1.active, fun u ↦ (h2.waitGen u).trans (h1.waitGen u), fun u ↦ ?_⟩, hnil⟩
    obtain ⟨hi, hr, hc⟩ := h2.thread u
    obtain ⟨hi', hr', hc'⟩ := h1.thread u
    exact ⟨hi.trans hi', hr.trans hr', hc.trans hc'⟩

namespace Balanced

theorem trip (h : Balanced n s) (hn : 0 < n) (hfits : s.obj.activeWaiters + 1 < 2 ^ 32)
    (hgen : ∀ u, In s u → (s.obj.waiter u).waitGen ≠ incU32 s.obj.generation) :
    Balanced n (trip (arrive s) t) := by
  obtain ⟨hk, hnil⟩ := woken_wakeAll (nextGeneration (arrive s)) true s.obj.waiters rfl
  have hth : (Barrier.trip (arrive s) t).thread =
      (wakeAll (nextGeneration (arrive s)) true s.obj.waiters).thread := rfl
  have hin : ∀ u, In (Barrier.trip (arrive s) t) u ↔ In s u := by
    intro u
    rw [In, hth, (hk.thread u).1, (hk.thread u).2.1]
    rfl
  have hact : (Barrier.trip (arrive s) t).obj.activeWaiters =
      decU32 (wakeAll (nextGeneration (arrive s)) true s.obj.waiters).obj.activeWaiters := rfl
  have harr : (nextGeneration (arrive s)).obj.activeWaiters = incU32 s.obj.activeWaiters := rfl
  rw [hk.active, harr, incU32_of_lt hfits, decU32_of_pos (Nat.succ_pos _)] at hact
  have hcount : (Barrier.trip (arrive s) t).obj.count = n := hk.count.trans h.size.1
  have hwait : (Barrier.trip (arrive s) t).obj.waiters = [] := hnil
  refine ⟨⟨hk.size.trans h.size.1, h.size.2⟩, ?_, fun u ↦ ?_, ?_, ?_, ?_, ?_, fun u hr ↦ ?_⟩
  · rw [hwait]
    exact nodup_nil
  · rw [hwait, hin]
    refine ⟨nofun, fun ⟨hu, he⟩ ↦ absurd ?_ (hgen u hu)⟩
    exact (hk.waitGen u).symm.trans (he.trans hk.generation)
  · rw [hwait, hcount]
    rfl
  · rw [hcount]
    exact hn
  · simp_rw [hact, hin]
    exact h.active
  · rw [hact]
    exact h.fits
  · obtain ⟨-, hr', hc⟩ := hk.thread u
    rw [hth] at hr ⊢
    exact hc.trans (h.off u (hr'.symm.trans hr))

end Balanced

/-- A nudge's callback finds the waiter off the queue; a thread that dies inside is still on it, with
its callback registered; an arrival does not wrap the number of those inside, and one that trips the
barrier does not come back to a generation that a thread inside is from. -/
def Orderly (s : Sys T) : Event T → Prop
  | .env (.nudge t .cleanup) => t ∉ s.obj.waiters
  | .env (.schedule t) => (s.thread t).state = .terminating → (s.thread t).inside = true →
      (s.thread t).blockCleanup = true ∧ t ∈ s.obj.waiters
  | .wait _ => s.obj.activeWaiters + 1 < 2 ^ 32 ∧ (s.obj.count = 1 →
      ∀ u, In s u → (s.obj.waiter u).waitGen ≠ incU32 s.obj.generation)
  | _ => True

instance (s : Sys T) (e : Event T) : Decidable (Orderly s e) := by
  unfold Orderly
  split <;> infer_instance

namespace Balanced

theorem wait (h : Balanced n s) (hn : 0 < n) (hK : Orderly s (.wait t)) (hrun : (s.thread t).Runs)
    (hout : (s.thread t).inside = false) : Balanced n (barrierWaitInterruptible s t) := by
  have hnot : ¬In s t := fun hin ↦ nomatch hout.symm.trans hin.1
  have harr : (arrive s).obj.count = s.obj.count - 1 := decU32_of_pos h.pos
  have hpos := h.pos
  rw [barrierWaitInterruptible]
  split_ifs with h0
  · exact h.trip hn hK.1 (hK.2 (by omega))
  · have hth : (Barrier.block (arrive s) t).thread t = (s.thread t).block .blocked :=
      (thread_modify ..).trans (if_pos rfl)
    refine (h.block hnot hrun.2.1 (by omega) hK.1).loopBody ?_
    rw [In, hth]
    exact ⟨rfl, hrun.2.1⟩

/-- A thread is switched away from for the last time. -/
theorem reap (h : Balanced n s) (hcpu : (s.thread t).onCpu = true)
    (hK : (s.thread t).inside = true → (s.thread t).blockCleanup = true ∧ t ∈ s.obj.waiters) :
    Balanced n ((runCleanup barrierWaitCleanup s t).modify t
      fun d ↦ { d with onCpu := false, reaped := true }) := by
  have hth : ∀ u ≠ t, ((runCleanup barrierWaitCleanup s t).modify t
      fun d ↦ { d with onCpu := false, reaped := true }).thread u = s.thread u := by
    intro u hu
    rw [thread_modify, if_neg hu, runCleanup, barrierWaitCleanup]
    split_ifs
    · exact update_of_ne hu ..
    · exact update_of_ne hu ..
    · rfl
  have hself : ∀ a : Sys T,
      (a.modify t fun d ↦ { d with onCpu := false, reaped := true }).thread t =
        { a.thread t with onCpu := false, reaped := true } := fun a ↦ update_self ..
  have hgone : ∀ a : Sys T,
      ¬In (a.modify t fun d ↦ { d with onCpu := false, reaped := true }) t := by
    intro a hin
    rw [In, hself] at hin
    cases hin.2
  have hoff : ∀ u, (((runCleanup barrierWaitCleanup s t).modify t
      fun d ↦ { d with onCpu := false, reaped := true }).thread u).reaped = true →
      (((runCleanup barrierWaitCleanup s t).modify t
        fun d ↦ { d with onCpu := false, reaped := true }).thread u).onCpu = false := by
    intro u
    by_cases hu : u = t
    · rw [hu, hself]
      exact fun _ ↦ rfl
    · rw [hth u hu]
      exact h.off u
  have hr : (s.thread t).reaped = false := by
    rw [← Bool.not_eq_true]
    intro hr
    cases (h.off t hr).symm.trans hcpu
  by_cases hin : (s.thread t).inside = true
  · obtain ⟨hcl, hl⟩ := hK hin
    have hrun : runCleanup barrierWaitCleanup s t = _ :=
      (if_pos hcl).trans (if_pos hl)
    have hoth : ∀ u ≠ t, In ((runCleanup barrierWaitCleanup s t).modify t
        fun d ↦ { d with onCpu := false, reaped := true }) u ↔ In s u := fun u hu ↦ by
      rw [In, In, hth u hu]
    refine h.drop ⟨hin, hr⟩ hoth (hgone _) ?_ ?_ (fun _ _ ↦ ?_) ?_ ?_ ?_ hoff <;>
      rw [hrun]
    · rfl
    · rfl
    · rfl
    · rfl
    · exact (if_pos hl).symm
    · rfl
  · have hnot : t ∉ s.obj.waiters := fun hl ↦ hin ((h.waiting t).mp hl).1.1
    refine h.congr ?_ (fun u ↦ ?_) hoff
    · rw [runCleanup, barrierWaitCleanup]
      split_ifs with hcl hl
      · exact absurd hl hnot
      · rfl
      · rfl
    · by_cases hu : u = t
      · rw [hu]
        exact ⟨fun hin' ↦ absurd hin' (hgone _), fun hin' ↦ absurd hin'.1 hin⟩
      · rw [In, In, hth u hu]

theorem envStep {e : Env T} (h : Balanced n s) (hK : Orderly s (.env e))
    (hstep : envStep barrierWaitCleanup s e = some s') : Balanced n s' := by
  rcases envStep_cases hstep with hq | ⟨t, l, l', rfl, -, rfl⟩ | ⟨t, rfl, hdying, rfl⟩
  · refine h.congr hq.obj (fun u ↦ ?_) fun u ↦ (hq.thread u).off (h.off u)
    rw [In, In, (hq.thread u).inside, (hq.thread u).reaped]
  · have hnot : barrierWaitCleanup { s with nudges := l } t = { s with nudges := l } := if_neg hK
    rw [hnot]
    exact h.congr rfl (fun _ ↦ Iff.rfl) h.off
  · exact h.reap (Option.ite_none_right_eq_some.mp hstep).1 (hK hdying)

theorem step {e : Event T} (h : Balanced n s) (hn : 0 < n) (hK : Orderly s e)
    (hstep : step s e = some s') : Balanced n s' := by
  cases e with
  | env e => exact h.envStep hK hstep
  | wait t =>
    obtain ⟨⟨hrun, hout⟩, rfl⟩ := Runs.of_guard hstep
    exact h.wait hn hK hrun hout
  | resume t =>
    obtain ⟨⟨hrun, hin⟩, rfl⟩ := Runs.of_guard hstep
    exact h.loopBody ⟨hin, hrun.2.1⟩

omit [DecidableEq T] in
theorem boot (hn : 0 < n) (hlt : n < 2 ^ 32) : Balanced n (Sync.Sys.boot (Bar.init T n)) where
  size := ⟨rfl, hlt⟩
  nodup := nodup_nil
  waiting _ := ⟨nofun, fun hu ↦ nomatch hu.1.1⟩
  count := rfl
  pos := hn
  active := (Finset.sum_eq_zero fun _ _ ↦ rfl).symm
  fits := Nat.two_pow_pos 32
  off := nofun

end Balanced

/-- **The accounts of a barrier**: the arrivals still needed and the threads that wait for the present
generation make up the barrier's size, at least one arrival is needed, and `active_waiters` is the
number of threads inside. -/
theorem accounts_balanced (hn : 0 < n) (hlt : n < 2 ^ 32) (h : Reach n Orderly s) :
    s.obj.count + (Finset.univ.filter fun u ↦
      In s u ∧ (s.obj.waiter u).waitGen = s.obj.generation).card = s.obj.tripCount ∧
    1 ≤ s.obj.count ∧ s.obj.count ≤ s.obj.tripCount ∧
    s.obj.activeWaiters = (Finset.univ.filter (In s)).card := by
  have hs : Balanced n s := h.invariant (.boot hn hlt) fun _ _ _ hs hK hstep ↦ hs.step hn hK hstep
  have hcard : (Finset.univ.filter fun u ↦
      In s u ∧ (s.obj.waiter u).waitGen = s.obj.generation).card = s.obj.waiters.length := by
    rw [← toFinset_card_of_nodup hs.nodup]
    congr 1
    ext u
    rw [Finset.mem_filter, mem_toFinset, hs.waiting u]
    exact and_iff_right (Finset.mem_univ u)
  have hcount := hs.count
  rw [hcard, hs.size.1, Finset.card_filter]
  exact ⟨hcount, hs.pos, by omega, hs.active⟩

/-- A waiter is killed, another takes its place, and the barrier trips. -/
theorem accounts_balanced_killed : ∃ s : Sys (Fin 3), Reach 2 Orderly s ∧
    (s.thread 0).reaped = true ∧ s.obj.generation = 1 ∧ In s 1 ∧
    (s.obj.count + (Finset.univ.filter fun u ↦
      In s u ∧ (s.obj.waiter u).waitGen = s.obj.generation).card = s.obj.tripCount ∧
    1 ≤ s.obj.count ∧ s.obj.count ≤ s.obj.tripCount ∧
    s.obj.activeWaiters = (Finset.univ.filter (In s)).card) := by
  obtain ⟨s, hs, hr, hg, hin⟩ : ∃ s : Sys (Fin 3), Reach 2 Orderly s ∧
      (s.thread 0).reaped = true ∧ s.obj.generation = 1 ∧ In s 1 :=
    Runs.exists_run step Orderly _ [.env (.dispatch 0), .wait 0, .env (.kill 0),
      .env (.schedule 0), .env (.dispatch 1), .wait 1, .env (.schedule 1), .env (.dispatch 2),
      .wait 2] (by decide +kernel)
  exact ⟨s, hs, hr, hg, hin, accounts_balanced (by decide) (by decide) hs⟩

/-- One waiter at a barrier for two is nudged: its callback undoes the arrival, and so does its own
abort. Three arrivals are then needed at a barrier for two, and the number of threads inside has
wrapped. -/
theorem not_accounts_balanced : ¬∀ s : Sys (Fin 1), Reach 2 (fun _ _ ↦ True) s →
    s.obj.count + (Finset.univ.filter fun u ↦
      In s u ∧ (s.obj.waiter u).waitGen = s.obj.generation).card = s.obj.tripCount ∧
    1 ≤ s.obj.count ∧ s.obj.count ≤ s.obj.tripCount ∧
    s.obj.activeWaiters = (Finset.univ.filter (In s)).card := by
  intro hall
  obtain ⟨s, hs, hc, ht⟩ : ∃ s : Sys (Fin 1), Reach 2 (fun _ _ ↦ True) s ∧
      s.obj.count = 3 ∧ s.obj.tripCount = 2 :=
    Runs.exists_run step (fun _ _ ↦ True) _ [.env (.dispatch 0), .wait 0, .env (.schedule 0),
      .env (.cancel 0), .env (.nudge 0 .check), .env (.nudge 0 .clear), .env (.nudge 0 .cleanup),
      .env (.nudge 0 .wake), .env (.dispatch 0), .resume 0] (by decide +kernel)
  have hle := (hall s hs).2.2.1
  omega

end Mazu.Sync.Barrier
