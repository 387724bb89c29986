import Mathlib.Logic.Relation

/-!
# Guarded runs of a transition system

A transition system is a partial function from states and events to states. A run is a chain of
steps, each of which meets a condition on the event and the state before it; the condition is a
parameter, so that runs of the whole system and runs of a restricted one are the same notion.
-/

namespace Mazu.Runs

variable {σ ε : Type*} {step : σ → ε → Option σ} {K K' : σ → ε → Prop} {s t u : σ}

/-- A guarded step that was taken. -/
theorem of_guard {p : Prop} [Decidable p] {a b : σ} (h : (if p then some a else none) = some b) :
    p ∧ a = b := by
  obtain ⟨hp, h⟩ := Option.ite_none_right_eq_some.mp h
  exact ⟨hp, Option.some.inj h⟩

/-- The states that are reached from `s` by steps that meet `K`. -/
inductive Run (step : σ → ε → Option σ) (K : σ → ε → Prop) (s : σ) : σ → Prop
  | refl : Run step K s s
  | tail {t u : σ} (e : ε) (h : Run step K s t) (hK : K t e) (hstep : step t e = some u) :
    Run step K s u

/-- **The invariant rule.** -/
theorem Run.invariant {P : σ → Prop} (h : Run step K s t) (hs : P s)
    (hstep : ∀ a e b, P a → K a e → step a e = some b → P b) : P t := by
  induction h with
  | refl => exact hs
  | tail e _ hK he ih => exact hstep _ e _ ih hK he

theorem Run.trans (h : Run step K s t) (h' : Run step K t u) : Run step K s u := by
  induction h' with
  | refl => exact h
  | tail e _ hK he ih => exact .tail e ih hK he

theorem Run.mono (hKK : ∀ a e, K a e → K' a e) (h : Run step K s t) : Run step K' s t := by
  induction h with
  | refl => exact .refl
  | tail e _ hK he ih => exact .tail e ih (hKK _ _ hK) he

section Play

variable [∀ a e, Decidable (K a e)]

/-- The run that a list of events makes; `none` as soon as an event is not possible or does not
meet the condition. -/
def play (step : σ → ε → Option σ) (K : σ → ε → Prop) [∀ a e, Decidable (K a e)] :
    σ → List ε → Option σ
  | s, [] => some s
  | s, e :: es => if K s e then (step s e).bind fun t ↦ play step K t es else none

theorem Run.of_play {es : List ε} (h : play step K s es = some t) : Run step K s t := by
  induction es generalizing s with
  | nil =>
    rw [play, Option.some.injEq] at h
    exact h ▸ .refl
  | cons e es ih =>
    rw [play, Option.ite_none_right_eq_some] at h
    obtain ⟨a, ha, hrest⟩ := Option.bind_eq_some_iff.mp h.2
    exact Run.trans (.tail e .refl h.1 ha) (ih hrest)

theorem exists_run_of_play {p : σ → Bool} (es : List ε) (h : (play step K s es).any p = true) :
    ∃ t, Run step K s t ∧ p t = true := by
  cases ht : play step K s es with
  | none => rw [ht, Option.any_none] at h; cases h
  | some t => rw [ht, Option.any_some] at h; exact ⟨t, .of_play ht, h⟩

/-- The same with a property in place of a test. -/
theorem exists_run (step : σ → ε → Option σ) (K : σ → ε → Prop) [∀ a e, Decidable (K a e)] (s : σ)
    (es : List ε) {p : σ → Prop} [DecidablePred p]
    (h : (play step K s es).any (fun t ↦ decide (p t)) = true) : ∃ t, Run step K s t ∧ p t := by
  obtain ⟨t, ht, hp⟩ := exists_run_of_play es h
  exact ⟨t, ht, of_decide_eq_true hp⟩

end Play

end Mazu.Runs
