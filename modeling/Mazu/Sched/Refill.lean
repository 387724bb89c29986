import Mazu.Sched.Effects

/-!
# Refill and detach of scheduling domains

A task whose domain has used up its budget is parked: it gets the blocked state and is left out of
the run queues. A refill tells parked members by that state and by their queue node, which a member
that waits on a lock or a wait queue shares.
-/

namespace Mazu.Sched

variable {n : ℕ} {s s' : Sys n} {e : Event n}

/-- The two operations that put members back. -/
def Event.Replenishes : Event n → Prop
  | .refill _ _ | .detach _ _ => True
  | _ => False

/-- Every blocked task that the operation looks at, and whose node is on no list, is parked. -/
def OnlyParked (s : Sys n) : Event n → Prop
  | .refill _ d => ∀ t ∈ (s.dom d).members, s.state t = .blocked → (s.task t).domain = some d →
      ¬s.Linked t → (s.task t).parked = true
  | .detach _ t => s.state t = .blocked → (s.task t).domain ≠ none → ¬s.Linked t →
      (s.task t).parked = true
  | _ => True

/-- The operation writes the state of parked tasks only, and makes them ready. -/
def ReleasesParked (s s' : Sys n) : Prop :=
  ∀ t, s'.state t ≠ s.state t → s'.state t = .ready ∧ (s.task t).parked = true

theorem onlyParked_iff (he : e.Replenishes) :
    OnlyParked s e ↔ ∀ t, e.Wakes s t → (s.task t).parked = true := by
  cases e with
  | refill c d =>
    refine ⟨fun h t ht ↦ ?_, fun h t hmem hst hd hl ↦ ?_⟩
    · obtain ⟨hmem, hp⟩ := List.mem_filter.mp ht
      obtain ⟨hst, hd, hl⟩ := of_decide_eq_true hp
      exact h t hmem hst hd hl
    · exact h t (List.mem_filter.mpr ⟨hmem, decide_eq_true ⟨hst, hd, hl⟩⟩)
  | detach c u =>
    refine ⟨?_, fun h hst hd hl ↦ h u ⟨rfl, hd, hst, hl⟩⟩
    rintro h t ⟨rfl, hd, hst, hl⟩
    exact h hst hd hl
  | _ => exact he.elim

/-- The tasks that such an operation wakes are blocked. -/
theorem blocked_of_replenishes {t : Tid} (he : e.Replenishes) (hw : e.Wakes s t) :
    s.state t = .blocked := by
  cases e with
  | refill c d => exact (of_decide_eq_true (List.mem_filter.mp hw).2).1
  | detach c u =>
    obtain ⟨rfl, -, hst, -⟩ := hw
    exact hst
  | _ => exact he.elim

end Mazu.Sched
