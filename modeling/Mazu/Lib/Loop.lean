import Mathlib.Logic.Relation
import Mathlib.Order.Nat

/-!
# Loops that may not terminate

A `while` loop is a `pass` function: one trip round the body either leaves the loop with a result
or goes back to the head with a new state. `run` gives the loop a number of trips; it terminates
when some number is enough. Termination is proved with a measure and refuted by following the
loop, and facts about the result come from an invariant at the head.
-/

namespace Mazu.Loop

variable {σ ρ : Type*}

/-- At most `fuel` trips round the loop. -/
def run (pass : σ → ρ ⊕ σ) : ℕ → σ → Option ρ
  | 0, _ => none
  | fuel + 1, s =>
    match pass s with
    | .inl r => some r
    | .inr s' => run pass fuel s'

variable (pass : σ → ρ ⊕ σ)

def Terminates (s : σ) : Prop := ∃ fuel, (run pass fuel s).isSome

/-- The trip from `s` that goes back to the head arrives in `s'`. -/
def Again (s s' : σ) : Prop := pass s = .inr s'

/-- `t` is the state at the head of the loop after some number of trips from `s`. -/
def Visits (s t : σ) : Prop := Relation.ReflTransGen (Again pass) s t

variable {pass} {s s' t : σ} {r : ρ} {fuel : ℕ}

theorem run_succ_of_inl (h : pass s = .inl r) : run pass (fuel + 1) s = some r := by
  rw [run, h]

theorem run_succ_of_inr (h : pass s = .inr s') : run pass (fuel + 1) s = run pass fuel s' := by
  rw [run, h]

/-- A loop that leaves does so from a state it visits. -/
theorem exists_visits_of_run (h : run pass fuel s = some r) :
    ∃ t, Visits pass s t ∧ pass t = .inl r := by
  induction fuel generalizing s with
  | zero => cases h
  | succ fuel ih =>
    cases hp : pass s with
    | inl r' =>
      rw [run_succ_of_inl hp] at h
      cases h
      exact ⟨s, Relation.ReflTransGen.refl, hp⟩
    | inr s' =>
      rw [run_succ_of_inr hp] at h
      obtain ⟨t, ht, hr⟩ := ih h
      exact ⟨t, Relation.ReflTransGen.head hp ht, hr⟩

/-- An invariant of the head holds in every visited state. -/
theorem Visits.invariant {P : σ → Prop} (h : Visits pass s t) (hs : P s)
    (hstep : ∀ u u', P u → pass u = .inr u' → P u') : P t := by
  induction h with
  | refl => exact hs
  | tail _ hu ih => exact hstep _ _ ih hu

theorem Terminates.of_inr (h : pass s = .inr s') (ht : Terminates pass s') : Terminates pass s := by
  obtain ⟨fuel, hf⟩ := ht
  exact ⟨fuel + 1, by rwa [run_succ_of_inr h]⟩

/-- **The measure rule.** A measure that drops on every trip back to the head, under an invariant
of the head, makes the loop terminate. -/
theorem terminates_of_measure (P : σ → Prop) (μ : σ → ℕ)
    (hstep : ∀ u u', P u → pass u = .inr u' → P u' ∧ μ u' < μ u) (hs : P s) :
    Terminates pass s := by
  induction hm : μ s using Nat.strongRecOn generalizing s with
  | ind m ih =>
    cases hp : pass s with
    | inl r => exact ⟨1, by rw [run_succ_of_inl hp]; rfl⟩
    | inr s' =>
      obtain ⟨hs', hlt⟩ := hstep s s' hs hp
      exact (ih (μ s') (hm ▸ hlt) hs' rfl).of_inr hp

end Mazu.Loop
