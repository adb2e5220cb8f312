import Mandate.Engine.Activation
import Mandate.Network.Basic

/-!
# Productions

A production is a registered constraint with its root in the network, its state and its history.
-/

namespace Mandate

/-- A registered constraint at work. -/
structure Production where
  id : ConstraintId
  constraint : Constraint
  /-- The root of its circuit; the production has one reference to it. -/
  root : NodeId
  /-- The facts that the constraint reads, in the order of keys. -/
  facts : List FactKey
  /-- Tells the registration from all others. -/
  generation : Nat
  state : ActivationState := .unknown
  /-- The moment of the last evaluation. -/
  evaluated : Option Moment := none
  /-- The changes of state, the first one in front. -/
  history : List ActivationRecord := []
  deriving DecidableEq

namespace Production

/-- The state of the production as queries tell it. -/
def status (p : Production) : ActivationStatus :=
  ⟨p.id, p.state, p.evaluated⟩

/-- Derives the state from the value of the root.  A change is recorded under the next sequence
number. -/
def settle (p : Production) (value : Value) (now : Moment) (next : Nat) :
    Production × Option ActivationRecord :=
  let state := ActivationState.ofValue value
  if state = p.state then ({ p with evaluated := some now }, none)
  else
    let record : ActivationRecord := ⟨p.id, p.state, state, now, next⟩
    ({ p with state, evaluated := some now, history := p.history ++ [record] }, some record)

end Production
end Mandate
