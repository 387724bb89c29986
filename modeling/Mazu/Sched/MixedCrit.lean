import Mazu.Lib.Runs
import Mazu.Sched.Core

/-!
# Mixed-criticality domain pairs

Two scheduling domains with independent refill timers are linked as peers. When the
high-criticality domain overruns its budget the pair escalates and the low-criticality domain is
depleted by force; the refill of the high-criticality domain ends the escalation.
-/

namespace Mazu.Sched.MixedCrit

inductive McState
  | normal
  | escalated
  deriving DecidableEq

structure McDomain where
  state : DomainState
  consumedTicks : ℕ
  quantumTicks : ℕ
  mcState : McState

inductive Criticality
  | hi
  | lo
  deriving DecidableEq

/-- The domains that are each other's `mc_peer`. -/
structure Pair where
  hi : McDomain
  lo : McDomain

def schedMcInitPair (hi lo : McDomain) : Pair :=
  ⟨{ hi with mcState := .normal }, { lo with mcState := .normal }⟩

def schedMcCheckEscalation (d : Pair) : Pair :=
  if d.hi.mcState ≠ .normal then d
  else if d.hi.consumedTicks ≤ d.hi.quantumTicks then d
  else ⟨{ d.hi with mcState := .escalated },
    { d.lo with mcState := .escalated, state := .depleted }⟩

def schedMcCheckRecovery (d : Pair) : Pair :=
  if d.hi.mcState ≠ .escalated then d
  else ⟨{ d.hi with mcState := .normal },
    { d.lo with mcState := .normal, state := .active, consumedTicks := 0 }⟩

/-- The domain is active and this charge uses up its budget. -/
def McDomain.Depletes (m : McDomain) (delta : ℕ) : Prop :=
  m.state = .active ∧ m.quantumTicks ≤ m.consumedTicks + delta

instance (m : McDomain) (delta : ℕ) : Decidable (m.Depletes delta) :=
  inferInstanceAs (Decidable (_ ∧ _))

def McDomain.charge (m : McDomain) (delta : ℕ) : McDomain :=
  { m with
    consumedTicks := m.consumedTicks + delta
    state := if m.Depletes delta then .depleted else m.state }

inductive Event
  | charge (c : Criticality) (delta : ℕ)
  | refill (c : Criticality)
  deriving DecidableEq

/-- The budget accounting of `sched_schedule` and `sched_domain_refill_cb`. -/
def step (d : Pair) : Event → Option Pair
  | .charge .hi delta =>
    let d' := { d with hi := d.hi.charge delta }
    some (if d.hi.Depletes delta then schedMcCheckEscalation d' else d')
  | .charge .lo delta => some { d with lo := d.lo.charge delta }
  | .refill .hi =>
    some (schedMcCheckRecovery { d with hi := { d.hi with consumedTicks := 0, state := .active } })
  | .refill .lo => some { d with lo := { d.lo with consumedTicks := 0, state := .active } }

/-- The states that a pair reaches from its set-up. -/
def Reach (K : Pair → Event → Prop) (d : Pair) : Prop :=
  ∃ hi lo, Runs.Run step K (schedMcInitPair hi lo) d

/-- The timer of the low-criticality domain does not fire while the pair is escalated. -/
def LoWaits (d : Pair) (e : Event) : Prop := e = .refill .lo → d.hi.mcState = .normal

instance (d : Pair) (e : Event) : Decidable (LoWaits d e) := inferInstanceAs (Decidable (_ → _))

/-- No refill of the high-criticality domain. -/
def NotRecovered (_ : Pair) (e : Event) : Prop := e ≠ .refill .hi

instance (d : Pair) (e : Event) : Decidable (NotRecovered d e) :=
  inferInstanceAs (Decidable (¬_))

/-- The invariant: an escalated pair has its low side depleted. -/
def Suspended (d : Pair) : Prop := d.hi.mcState = .escalated → d.lo.state = .depleted

theorem charge_depleted {m : McDomain} (delta : ℕ) (h : m.state = .depleted) :
    (m.charge delta).state = .depleted := by
  rw [McDomain.charge]
  split_ifs
  · rfl
  · exact h

theorem suspended_checkEscalation {d : Pair} (h : Suspended d) :
    Suspended (schedMcCheckEscalation d) := by
  rw [schedMcCheckEscalation]
  split_ifs
  · exact h
  · exact h
  · intro _
    rfl

theorem suspended_step {d d' : Pair} {e : Event} (h : Suspended d) (hK : LoWaits d e)
    (hstep : step d e = some d') : Suspended d' := by
  cases e with
  | charge c delta =>
    cases c with
    | hi =>
      have hch : Suspended { d with hi := d.hi.charge delta } := h
      cases hstep
      split_ifs
      · exact suspended_checkEscalation hch
      · exact hch
    | lo =>
      cases hstep
      intro hesc
      exact charge_depleted delta (h hesc)
  | refill c =>
    cases c with
    | hi =>
      cases hstep
      rw [schedMcCheckRecovery]
      split_ifs with hmc
      · intro hesc
        exact absurd hesc hmc
      · intro hesc
        cases hesc
    | lo =>
      cases hstep
      intro hesc
      cases (hK rfl).symm.trans hesc

/-- Only its own refill ends the escalation. -/
theorem escalated_step {d d' : Pair} {e : Event} (h : d.hi.mcState = .escalated)
    (he : NotRecovered d e) (hstep : step d e = some d') : d'.hi.mcState = .escalated := by
  cases e with
  | charge c delta =>
    cases c with
    | hi =>
      cases hstep
      split_ifs
      · rw [schedMcCheckEscalation, if_pos (by rw [McDomain.charge, h]; decide)]
        exact h
      · exact h
    | lo =>
      cases hstep
      exact h
  | refill c =>
    cases c with
    | hi => exact absurd rfl he
    | lo =>
      cases hstep
      exact h

/-- **The low side stays depleted through the escalation**, from the moment the high side escalates
until its next refill, when the low side's own timer does not fire in between. -/
theorem lo_depleted_while_escalated {d d' : Pair} (h : Reach LoWaits d)
    (hesc : d.hi.mcState = .escalated)
    (hrun : Runs.Run step (fun d e ↦ LoWaits d e ∧ NotRecovered d e) d d') :
    d'.hi.mcState = .escalated ∧ d'.lo.state = .depleted := by
  obtain ⟨hi, lo, h⟩ := h
  have hs : Suspended d := by
    refine h.invariant (P := Suspended) nofun fun _ _ _ hs hK hstep ↦ suspended_step hs hK hstep
  have hd : Suspended d' ∧ d'.hi.mcState = .escalated := by
    refine hrun.invariant (P := fun d ↦ Suspended d ∧ d.hi.mcState = .escalated) ⟨hs, hesc⟩ ?_
    intro a e b ha hK hstep
    exact ⟨suspended_step ha.1 hK.1 hstep, escalated_step ha.2 hK.2 hstep⟩
  exact ⟨hd.2, hd.1 hd.2⟩

/-- Two fresh domains with the given budgets. -/
def freshPair (hi lo : ℕ) : Pair :=
  schedMcInitPair ⟨.active, 0, hi, .normal⟩ ⟨.active, 0, lo, .normal⟩

/-- The high side overruns a budget of 5, and the low side is charged after that. -/
theorem lo_depleted_while_escalated_overrun : ∃ d d' : Pair, Reach LoWaits d ∧
    d.hi.mcState = .escalated ∧ d'.lo.consumedTicks = 2 ∧ d'.hi.mcState = .escalated ∧
    d'.lo.state = .depleted := by
  obtain ⟨d, hd, hesc, hz⟩ : ∃ d, Runs.Run step LoWaits (freshPair 5 3) d ∧
      d.hi.mcState = .escalated ∧ d.lo.consumedTicks = 0 :=
    Runs.exists_run step LoWaits _ [.charge .hi 7] (by decide)
  have hrun : Runs.Run step (fun d e ↦ LoWaits d e ∧ NotRecovered d e) d
      { d with lo := d.lo.charge 2 } :=
    .tail (.charge .lo 2) .refl ⟨nofun, nofun⟩ rfl
  have hend := lo_depleted_while_escalated ⟨_, _, hd⟩ hesc hrun
  exact ⟨d, _, ⟨_, _, hd⟩, hesc, by rw [McDomain.charge, hz], hend.1, hend.2⟩

/-- The timer of the low side fires during the escalation and gives it a full budget. -/
theorem not_lo_depleted_while_escalated : ¬∀ d d' : Pair, Reach (fun _ _ ↦ True) d →
    d.hi.mcState = .escalated → Runs.Run step NotRecovered d d' → d'.lo.state = .depleted := by
  intro hall
  obtain ⟨d, hd, hesc⟩ : ∃ d, Runs.Run step (fun _ _ ↦ True) (freshPair 5 3) d ∧
      d.hi.mcState = .escalated :=
    Runs.exists_run step (fun _ _ ↦ True) _ [.charge .hi 7] (by decide)
  have hrun : Runs.Run step NotRecovered d
      { d with lo := { d.lo with consumedTicks := 0, state := .active } } :=
    .tail (.refill .lo) .refl nofun rfl
  cases hall d _ ⟨_, _, hd⟩ hesc hrun

end Mazu.Sched.MixedCrit
