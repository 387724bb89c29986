import Mathlib
import Mazu.Lib.Runs
import Mazu.Lib.Tally

/-!
# The deadline class

Admission and budgets of deadline tasks. A task asks for a runtime in every period; the fixed-point
utilisations of the admitted tasks are added up in one counter, from which the share of a task is
taken off again when its parameters change or it leaves. An admitted task is charged for what it
runs; when its budget is used up it is throttled until a timer replenishes it.

Time is counted in ticks of the time base. The record of the ticks that were charged and of the
periods that were begun is there for the specification only.
-/

namespace Mazu.Sched.Deadline

open Function

/-! ## Machine words -/

/-- Addition and subtraction of `w`-bit words. -/
def addW (w a b : ℕ) : ℕ := (a + b) % 2 ^ w

def subW (w a b : ℕ) : ℕ := (a + 2 ^ w - b) % 2 ^ w

theorem addW_eq {w a b : ℕ} (h : a + b < 2 ^ w) : addW w a b = a + b := Nat.mod_eq_of_lt h

theorem subW_eq {w a b : ℕ} (hb : b ≤ a) (ha : a < 2 ^ w) : subW w a b = a - b := by
  rw [subW, show a + 2 ^ w - b = a - b + 2 ^ w by omega, Nat.add_mod_right]
  exact Nat.mod_eq_of_lt (by omega)

/-- A precomputed conversion factor. -/
structure FreqFrac where
  mul : ℕ
  shift : ℕ

/-- Multiply and shift in 128 bits, saturating. -/
def freqFracApply (ff : FreqFrac) (x : ℕ) : ℕ := min ((ff.mul * x) >>> ff.shift) (2 ^ 64 - 1)

/-- The configuration: the factor from microseconds to ticks, fixed at boot, and the percentage
`CONFIG_SCHED_DL_UTIL_THRESHOLD`. -/
structure Config where
  fromUs : FreqFrac
  pct : ℕ
  pct_le : pct ≤ 100

def nsToTicks (cfg : Config) (ns : ℕ) : ℕ := freqFracApply cfg.fromUs (ns / 1000)

theorem nsToTicks_mono (cfg : Config) {a b : ℕ} (h : a ≤ b) : nsToTicks cfg a ≤ nsToTicks cfg b := by
  rw [nsToTicks, nsToTicks, freqFracApply, freqFracApply, Nat.shiftRight_eq_div_pow,
    Nat.shiftRight_eq_div_pow]
  have hmul : cfg.fromUs.mul * (a / 1000) ≤ cfg.fromUs.mul * (b / 1000) :=
    Nat.mul_le_mul_left _ (Nat.div_le_div_right h)
  exact min_le_min_right _ (Nat.div_le_div_right hmul)

/-! ## Tasks -/

/-- `struct sched_dl_entity` with the policy of the task. -/
structure Entity where
  /-- `td_policy` is `SCHED_POLICY_DEADLINE`. -/
  policy : Bool
  active : Bool
  runtime : ℕ
  deadline : ℕ
  period : ℕ
  remaining : ℕ
  absDeadline : ℕ
  throttled : Bool
  deriving DecidableEq

/-- What `sched_dl_task_init` writes. -/
def Entity.init : Entity := ⟨false, false, 0, 0, 0, 0, 0, false⟩

def Entity.admitted (d : Entity) : Bool := d.policy && d.active

def dlUtilShift : ℕ := 20

/-- `(runtime << DL_UTIL_SHIFT) / period` in 64 bits. -/
def fixedUtil (runtime period : ℕ) : ℕ := runtime * 2 ^ dlUtilShift % 2 ^ 64 / period

def Entity.util (d : Entity) : ℕ := fixedUtil d.runtime d.period

/-- A period that was begun, with the runtime promised for it. -/
structure Activation where
  start : ℕ
  period : ℕ
  runtime : ℕ
  deriving DecidableEq

structure Sys (T : Type) where
  now : ℕ
  dl : T → Entity
  /-- When the replenishment callout of the task fires. -/
  timer : T → Option ℕ
  totalUtil : ℕ
  nrAdmitted : ℕ
  /-- The ticks for which the task was charged. -/
  charged : T → List ℕ
  begun : T → List Activation

def Sys.boot (T : Type) : Sys T where
  now := 0
  dl _ := .init
  timer _ := none
  totalUtil := 0
  nrAdmitted := 0
  charged _ := []
  begun _ := []

variable {T : Type}

section Machine

variable [DecidableEq T]

variable (cfg : Config) (s : Sys T) (t : T) (d : Entity)

/-- The period that the entity's absolute deadline belongs to. -/
def Entity.current : Activation := ⟨d.absDeadline - d.deadline, d.period, d.runtime⟩

def Sys.setDl : Sys T :=
  { s with dl := update s.dl t d }

/-- The task begins a period with these parameters. -/
def Sys.activate : Sys T :=
  { s.setDl t d with begun := update s.begun t (d.current :: s.begun t) }

def threshold : ℕ := cfg.pct * 2 ^ dlUtilShift / 100

def dlAdmissionOk (total runtime period : ℕ) : Bool :=
  if 2 ^ (64 - dlUtilShift) ≤ runtime then false
  else addW 64 total (fixedUtil runtime period) ≤ threshold cfg

inductive Errno
  | einval
  | ebusy
  deriving DecidableEq

/-- The parameters in ticks, unless they are refused. -/
def dlParams (runtimeNs deadlineNs periodNs : ℕ) : Option (ℕ × ℕ × ℕ) :=
  if runtimeNs = 0 ∨ deadlineNs = 0 ∨ periodNs = 0 then none
  else if runtimeNs > deadlineNs ∨ deadlineNs > periodNs then none
  else if nsToTicks cfg runtimeNs = 0 ∨ nsToTicks cfg deadlineNs = 0 ∨ nsToTicks cfg periodNs = 0
  then none
  else some (nsToTicks cfg runtimeNs, nsToTicks cfg deadlineNs, nsToTicks cfg periodNs)

/-- The share of a task that is already admitted. -/
def oldUtil : ℕ := if d.admitted then d.util else 0

/-- The section of `sched_dl_setattr` under `sched_lock`. A refusal puts the old share back. -/
def admission (rt dl pd : ℕ) : Option Errno × Sys T :=
  let d := s.dl t
  let total := if d.admitted then subW 64 s.totalUtil (oldUtil d) else s.totalUtil
  if dlAdmissionOk cfg total rt pd then
    let d' : Entity := ⟨true, true, rt, dl, pd, rt, s.now + dl, false⟩
    (none, { s.activate t d' with
      totalUtil := addW 64 total (fixedUtil rt pd)
      nrAdmitted := if d.admitted then s.nrAdmitted else addW 32 s.nrAdmitted 1 })
  else (some .ebusy, { s with
    totalUtil := if d.admitted then addW 64 total (oldUtil d) else total })

def schedDlSetattr (runtimeNs deadlineNs periodNs : ℕ) : Option Errno × Sys T :=
  match dlParams cfg runtimeNs deadlineNs periodNs with
  | none => (some .einval, s)
  | some (rt, dl, pd) => admission cfg s t rt dl pd

def schedDlClearattr : Sys T :=
  if (s.dl t).admitted then
    { s.setDl t { s.dl t with active := false, policy := false } with
      totalUtil := subW 64 s.totalUtil (s.dl t).util
      nrAdmitted := subW 32 s.nrAdmitted 1
      timer := update s.timer t none }
  else s

/-- `sched_dl_task_destroy`, and `sched_dl_task_init` of the next task in the same memory. -/
def schedDlTaskDestroy : Sys T :=
  let s := schedDlClearattr s t
  { s.setDl t .init with
    timer := update s.timer t none
    charged := update s.charged t []
    begun := update s.begun t [] }

/-- A full budget and the next deadline; a task that is more than a period late starts afresh. -/
def Entity.replenish (now : ℕ) : Entity :=
  { d with
    remaining := d.runtime
    throttled := false
    absDeadline := if d.absDeadline + d.period < now then now + d.deadline
      else d.absDeadline + d.period }

def dlReplenishCb : Sys T :=
  { s.activate t ((s.dl t).replenish s.now) with timer := update s.timer t none }

/-- The end of the period that the entity is in. -/
def Entity.periodEnd : ℕ := d.absDeadline - d.deadline + d.period

/-- The task is charged for what it runs. -/
def Entity.Chargeable : Prop := d.active = true ∧ d.throttled = false

instance (d : Entity) : Decidable d.Chargeable := inferInstanceAs (Decidable (_ ∧ _))

/-- `sched_dl_charge` at time `now`: the entity after it, and when the callout is set to fire. -/
def schedDlCharge (now delta : ℕ) : Entity × Option ℕ :=
  if ¬d.Chargeable then (d, none)
  else if d.remaining ≤ delta then
    ({ d with remaining := 0, throttled := true },
      some (now + if now < d.periodEnd then d.periodEnd - now else 1))
  else ({ d with remaining := d.remaining - delta }, none)

/-- One tick passes. What a task ran is charged when the tick is over. -/
def Sys.tick (runs : List T) : Sys T where
  now := s.now + 1
  dl t := if t ∈ runs then (schedDlCharge (s.dl t) (s.now + 1) 1).1 else s.dl t
  timer t := if t ∈ runs then (schedDlCharge (s.dl t) (s.now + 1) 1).2.or (s.timer t) else s.timer t
  totalUtil := s.totalUtil
  nrAdmitted := s.nrAdmitted
  charged t := if t ∈ runs ∧ (s.dl t).Chargeable then s.now :: s.charged t else s.charged t
  begun := s.begun

inductive Event (T : Type)
  | setattr (t : T) (runtimeNs deadlineNs periodNs : ℕ)
  | clearattr (t : T)
  | destroy (t : T)
  /-- One tick passes, in which the given tasks run. -/
  | tick (runs : List T)
  /-- The callout of the task fires. -/
  | replenish (t : T)

/-- Callouts fire on time: the clock does not go on while one is due. -/
def step [Fintype T] (cfg : Config) (s : Sys T) : Event T → Option (Sys T)
  | .setattr t rt dl pd => some (schedDlSetattr cfg s t rt dl pd).2
  | .clearattr t => some (schedDlClearattr s t)
  | .destroy t => some (schedDlTaskDestroy s t)
  | .tick runs =>
    if ∀ t, s.timer t ≠ some s.now then some (s.tick runs) else none
  | .replenish t => if s.timer t = some s.now then some (dlReplenishCb s t) else none

end Machine

/-! ## The accounts -/

/-- The number of tasks that count as one admitted task. -/
def Entity.count (d : Entity) : ℕ := if d.admitted then 1 else 0

theorem threshold_le (cfg : Config) : threshold cfg ≤ 2 ^ 20 :=
  Nat.div_le_of_le_mul (Nat.mul_le_mul_right _ cfg.pct_le)

/-- A runtime within its period is worth at most one. -/
theorem fixedUtil_le {runtime period : ℕ} (h : runtime ≤ period) :
    fixedUtil runtime period ≤ 2 ^ 20 := by
  refine Nat.div_le_of_le_mul ((Nat.mod_le _ _).trans ?_)
  exact Nat.mul_le_mul_right _ h

theorem dlParams_some {cfg : Config} {a b c rt dl pd : ℕ}
    (h : dlParams cfg a b c = some (rt, dl, pd)) : 0 < rt ∧ 0 < dl ∧ rt ≤ dl ∧ dl ≤ pd := by
  rw [dlParams] at h
  split_ifs at h with _ hord hpos
  cases h
  push Not at hord hpos
  exact ⟨Nat.pos_of_ne_zero hpos.1, Nat.pos_of_ne_zero hpos.2.1, nsToTicks_mono cfg hord.1,
    nsToTicks_mono cfg hord.2⟩

theorem schedDlCharge_share (d : Entity) (now delta : ℕ) :
    (schedDlCharge d now delta).1.admitted = d.admitted ∧
      (schedDlCharge d now delta).1.runtime = d.runtime ∧
      (schedDlCharge d now delta).1.period = d.period := by
  rw [schedDlCharge]
  split_ifs <;> exact ⟨rfl, rfl, rfl⟩

theorem not_admitted_schedDlClearattr [DecidableEq T] (s : Sys T) (t : T) :
    ((schedDlClearattr s t).dl t).admitted = false := by
  rw [schedDlClearattr]
  split_ifs with hadm
  · exact congrArg Entity.admitted (update_self t _ s.dl)
  · exact Bool.eq_false_iff.mpr hadm

theorem le_of_dlAdmissionOk {cfg : Config} {total rt pd : ℕ}
    (h : dlAdmissionOk cfg total rt pd = true) :
    addW 64 total (fixedUtil rt pd) ≤ threshold cfg := by
  rw [dlAdmissionOk] at h
  split_ifs at h
  exact of_decide_eq_true h

section Sum

variable [Fintype T]

/-- **One task changes.** -/
theorem sum_update [DecidableEq T] (g : Entity → ℕ) (f : T → Entity) (t : T) (d : Entity) :
    ∑ u, g (update f t d u) + g (f t) = ∑ u, g (f u) + g d := by
  have hsum := Tally.sum_add_of_eq_off (f := fun u ↦ g (update f t d u))
    fun u hu ↦ by rw [update_of_ne hu]
  rwa [update_self] at hsum

theorem sum_count_le (f : T → Entity) : ∑ u, (f u).count ≤ Fintype.card T := by
  have hone : ∀ u ∈ Finset.univ, (f u).count ≤ 1 := fun u _ ↦ by
    rw [Entity.count]
    split_ifs <;> decide
  calc ∑ u, (f u).count ≤ ∑ _u : T, 1 := Finset.sum_le_sum hone
    _ = Fintype.card T := Fintype.card_eq_sum_ones.symm

end Sum

structure Accounted [Fintype T] (cfg : Config) (s : Sys T) : Prop where
  total : s.totalUtil = ∑ t, oldUtil (s.dl t)
  number : s.nrAdmitted = ∑ t, (s.dl t).count
  le : s.totalUtil ≤ threshold cfg
  period : ∀ t, (s.dl t).admitted = true → (s.dl t).runtime ≤ (s.dl t).period

section Steps

variable [Fintype T] {cfg : Config} {s s' : Sys T} {e : Event T}

theorem accounted_boot (cfg : Config) : Accounted cfg (Sys.boot T) where
  total := by simp [Sys.boot, oldUtil, Entity.admitted, Entity.init]
  number := by simp [Sys.boot, Entity.count, Entity.admitted, Entity.init]
  le := Nat.zero_le _
  period := nofun

namespace Accounted

theorem totalUtil_lt (h : Accounted cfg s) : s.totalUtil < 2 ^ 64 := by
  have hle := h.le.trans (threshold_le cfg)
  omega

theorem nrAdmitted_lt (h : Accounted cfg s) (hT : Fintype.card T + 1 < 2 ^ 32) :
    s.nrAdmitted + 1 < 2 ^ 32 := by
  have hle := sum_count_le s.dl
  rw [← h.number] at hle
  omega

theorem oldUtil_le (h : Accounted cfg s) (t : T) : oldUtil (s.dl t) ≤ s.totalUtil := by
  rw [h.total]
  exact Tally.le_sum (fun u ↦ oldUtil (s.dl u)) t

/-- Nothing that the shares depend on changes. -/
theorem of_sameShare (h : Accounted cfg s) (ht : s'.totalUtil = s.totalUtil)
    (hn : s'.nrAdmitted = s.nrAdmitted)
    (hd : ∀ t, (s'.dl t).admitted = (s.dl t).admitted ∧ (s'.dl t).runtime = (s.dl t).runtime ∧
      (s'.dl t).period = (s.dl t).period) : Accounted cfg s' where
  total := by
    rw [ht, h.total]
    refine Finset.sum_congr rfl fun t _ ↦ ?_
    obtain ⟨ha, hr, hp⟩ := hd t
    rw [oldUtil, oldUtil, Entity.util, Entity.util, ha, hr, hp]
  number := by
    rw [hn, h.number]
    refine Finset.sum_congr rfl fun t _ ↦ ?_
    rw [Entity.count, Entity.count, (hd t).1]
  le := ht ▸ h.le
  period := by
    intro t hadm
    obtain ⟨ha, hr, hp⟩ := hd t
    rw [hr, hp]
    exact h.period t (ha ▸ hadm)

section Admission

variable [DecidableEq T]

/-- One task changes, and the counters with it. -/
theorem of_update (h : Accounted cfg s) {t : T} {d : Entity}
    (hd : s'.dl = update s.dl t d)
    (ht : s'.totalUtil + oldUtil (s.dl t) = s.totalUtil + oldUtil d)
    (hn : s'.nrAdmitted + (s.dl t).count = s.nrAdmitted + d.count)
    (hle : s'.totalUtil ≤ threshold cfg) (hp : d.admitted = true → d.runtime ≤ d.period) :
    Accounted cfg s' where
  total := by
    have hsum := sum_update oldUtil s.dl t d
    rw [← hd, ← h.total] at hsum
    omega
  number := by
    have hsum := sum_update Entity.count s.dl t d
    rw [← hd, ← h.number] at hsum
    omega
  le := hle
  period := by
    intro u hu
    rw [hd] at hu ⊢
    by_cases hut : u = t
    · subst hut
      rw [update_self] at hu ⊢
      exact hp hu
    · rw [update_of_ne hut] at hu ⊢
      exact h.period u hu

theorem admission (h : Accounted cfg s) (hT : Fintype.card T + 1 < 2 ^ 32) (t : T) {rt dl pd : ℕ}
    (hrp : rt ≤ pd) : Accounted cfg (admission cfg s t rt dl pd).2 := by
  have hlt := h.totalUtil_lt
  have hold := h.oldUtil_le t
  -- the counter without the old share, whether or not there is one
  have hbase : (if (s.dl t).admitted then subW 64 s.totalUtil (oldUtil (s.dl t))
      else s.totalUtil) = s.totalUtil - oldUtil (s.dl t) := by
    split_ifs with hadm
    · exact subW_eq hold hlt
    · rw [oldUtil, if_neg hadm, Nat.sub_zero]
  have hnew := fixedUtil_le hrp
  have hthr := threshold_le cfg
  have hle := h.le
  have hadd : addW 64 (s.totalUtil - oldUtil (s.dl t)) (fixedUtil rt pd) =
      s.totalUtil - oldUtil (s.dl t) + fixedUtil rt pd := addW_eq (by omega)
  have hshare : oldUtil ⟨true, true, rt, dl, pd, rt, s.now + dl, false⟩ = fixedUtil rt pd := rfl
  rw [Deadline.admission, hbase]
  split_ifs with hok hadm hadm
  · -- a task that is admitted already changes its parameters
    have hthr' := le_of_dlAdmissionOk hok
    refine h.of_update (t := t) (d := ⟨true, true, rt, dl, pd, rt, s.now + dl, false⟩) rfl ?_ ?_
      hthr' fun _ ↦ hrp
    · dsimp only
      rw [hadd, hshare]
      omega
    · rw [Entity.count, if_pos hadm]
      rfl
  · have hthr' := le_of_dlAdmissionOk hok
    refine h.of_update (t := t) (d := ⟨true, true, rt, dl, pd, rt, s.now + dl, false⟩) rfl ?_ ?_
      hthr' fun _ ↦ hrp
    · dsimp only
      rw [hadd, hshare]
      omega
    · dsimp only
      rw [Entity.count, if_neg hadm, addW_eq (h.nrAdmitted_lt hT)]
      rfl
  · refine h.of_sameShare ?_ rfl fun _ ↦ ⟨rfl, rfl, rfl⟩
    dsimp only
    rw [addW_eq (by omega)]
    omega
  · refine h.of_sameShare ?_ rfl fun _ ↦ ⟨rfl, rfl, rfl⟩
    dsimp only
    rw [oldUtil, if_neg hadm, Nat.sub_zero]

theorem schedDlClearattr (h : Accounted cfg s) (hT : Fintype.card T + 1 < 2 ^ 32) (t : T) :
    Accounted cfg (schedDlClearattr s t) := by
  rw [Deadline.schedDlClearattr]
  split_ifs with hadm
  case neg => exact h
  have hold := h.oldUtil_le t
  have hcount := Tally.le_sum (fun u ↦ (s.dl u).count) t
  rw [← h.number, Entity.count, if_pos hadm] at hcount
  rw [oldUtil, if_pos hadm] at hold
  have hthr := h.le
  refine h.of_update (t := t) (d := { s.dl t with active := false, policy := false }) rfl ?_ ?_ ?_
    nofun
  · have hzero : oldUtil { s.dl t with active := false, policy := false } = 0 := rfl
    rw [hzero, oldUtil, if_pos hadm]
    dsimp only
    rw [subW_eq hold h.totalUtil_lt]
    omega
  · have hzero : Entity.count { s.dl t with active := false, policy := false } = 0 := rfl
    have hlt := h.nrAdmitted_lt hT
    rw [hzero, Entity.count, if_pos hadm]
    dsimp only
    rw [subW_eq hcount (by omega)]
    omega
  · dsimp only
    rw [subW_eq hold h.totalUtil_lt]
    omega

theorem schedDlTaskDestroy (h : Accounted cfg s) (hT : Fintype.card T + 1 < 2 ^ 32) (t : T) :
    Accounted cfg (schedDlTaskDestroy s t) := by
  have hclear := h.schedDlClearattr hT t
  have hadm := not_admitted_schedDlClearattr s t
  refine hclear.of_update (t := t) (d := .init) rfl ?_ ?_ hclear.le nofun
  · rw [oldUtil, if_neg (by rw [hadm]; decide)]
    rfl
  · rw [Entity.count, if_neg (by rw [hadm]; decide)]
    rfl

theorem step (h : Accounted cfg s) (hT : Fintype.card T + 1 < 2 ^ 32)
    (hstep : step cfg s e = some s') : Accounted cfg s' := by
  cases e with
  | setattr t rt dl pd =>
    cases hstep
    rw [schedDlSetattr]
    split
    · exact h
    · next rt' dl' pd' hp =>
      obtain ⟨-, -, hrd, hdp⟩ := dlParams_some hp
      exact h.admission hT t (hrd.trans hdp)
  | clearattr t =>
    cases hstep
    exact h.schedDlClearattr hT t
  | destroy t =>
    cases hstep
    exact h.schedDlTaskDestroy hT t
  | tick runs =>
    obtain ⟨-, rfl⟩ := Runs.of_guard hstep
    refine h.of_sameShare rfl rfl fun t ↦ ?_
    rw [Sys.tick]
    dsimp only
    split_ifs
    · exact schedDlCharge_share _ _ _
    · exact ⟨rfl, rfl, rfl⟩
  | replenish t =>
    obtain ⟨-, rfl⟩ := Runs.of_guard hstep
    refine h.of_sameShare rfl rfl fun u ↦ ?_
    have hdl : (dlReplenishCb s t).dl u = if u = t then (s.dl t).replenish s.now else s.dl u :=
      update_apply ..
    rw [hdl]
    split_ifs with hut
    · rw [hut]
      exact ⟨rfl, rfl, rfl⟩
    · exact ⟨rfl, rfl, rfl⟩

end Admission

end Accounted

end Steps

/-- Where task structures are: page-aligned in a 39-bit address space. -/
abbrev TaskPage : Type := Fin (2 ^ 27)

/-- The states that the deadline class reaches. -/
def Reach [Fintype T] [DecidableEq T] (cfg : Config) (K : Sys T → Event T → Prop) (s : Sys T) :
    Prop :=
  Runs.Run (step cfg) K (Sys.boot T) s

/-- **The counters are exact.** They are the sum of the shares and the number of the admitted tasks,
the sum stays below the threshold, and no subtraction or addition of the next operation can wrap
round. -/
theorem counters_exact {cfg : Config} {s : Sys TaskPage} (h : Reach cfg (fun _ _ ↦ True) s) :
    s.totalUtil = ∑ t with (s.dl t).admitted = true, (s.dl t).util ∧
    s.nrAdmitted = (Finset.univ.filter fun t ↦ (s.dl t).admitted = true).card ∧
    s.totalUtil ≤ threshold cfg ∧
    (∀ t, (s.dl t).admitted = true → (s.dl t).util ≤ s.totalUtil ∧ 1 ≤ s.nrAdmitted) ∧
    (∀ a b c rt dl pd, dlParams cfg a b c = some (rt, dl, pd) →
      s.totalUtil + fixedUtil rt pd < 2 ^ 64) ∧
    s.nrAdmitted + 1 < 2 ^ 32 := by
  have hT : Fintype.card TaskPage + 1 < 2 ^ 32 := by
    rw [Fintype.card_fin]
    decide
  have hs : Accounted cfg s :=
    h.invariant (accounted_boot cfg) fun _ _ _ hs _ hstep ↦ hs.step hT hstep
  refine ⟨?_, ?_, hs.le, fun t ht ↦ ⟨?_, ?_⟩, fun a b c rt dl pd hp ↦ ?_, hs.nrAdmitted_lt hT⟩
  · rw [hs.total, Finset.sum_filter]
    rfl
  · rw [hs.number, Finset.card_filter]
    rfl
  · have hle := hs.oldUtil_le t
    rw [oldUtil, if_pos ht] at hle
    exact hle
  · have hle := Tally.le_sum (fun u ↦ (s.dl u).count) t
    rw [← hs.number, Entity.count, if_pos ht] at hle
    exact hle
  · obtain ⟨-, -, hrd, hdp⟩ := dlParams_some hp
    have hnew := fixedUtil_le (hrd.trans hdp)
    have hle := hs.le.trans (threshold_le cfg)
    omega

/-- Ten ticks a microsecond, and the default threshold. -/
theorem default_le : 95 ≤ 100 := by decide

def defaultConfig : Config := ⟨⟨10, 0⟩, 95, default_le⟩

/-- A task is admitted with half of the time, asks for all of it in vain and keeps its share. -/
theorem counters_exact_refused : ∃ s : Sys TaskPage,
    Reach defaultConfig (fun _ _ ↦ True) s ∧ s.totalUtil = 2 ^ 19 ∧ s.nrAdmitted = 1 ∧
    (s.dl 7).admitted = true ∧
    s.totalUtil = ∑ t with (s.dl t).admitted = true, (s.dl t).util := by
  obtain ⟨s, hs, ht, hn, ha⟩ : ∃ s, Runs.Run (step defaultConfig) (fun _ _ ↦ True)
      (Sys.boot TaskPage) s ∧ s.totalUtil = 2 ^ 19 ∧ s.nrAdmitted = 1 ∧
      (s.dl 7).admitted = true :=
    Runs.exists_run _ (fun _ _ ↦ True) _
      [.setattr 7 5000 10000 10000, .setattr 7 10000 10000 10000] (by decide +kernel)
  exact ⟨s, hs, ht, hn, ha, (counters_exact hs).1⟩

end Mazu.Sched.Deadline
