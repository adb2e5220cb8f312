import Mandate.Engine.Basic
import Mandate.Provider.Basic

/-!
# Events

What the engine and the service report to the console.

Main definitions:

* `Event`.
* `Engine.eventsOfAdd`, `Engine.eventsOfRemove`, `Batch.events`: what the operations of the engine
  report.
-/

namespace Mandate

/-- A report to the console. -/
inductive Event
  | added (id : ConstraintId) (permission : PermId) (nodes : Nat)
  | replaced (id old : ConstraintId)
  | removed (id : ConstraintId) (nodes : Nat)
  | activation (record : ActivationRecord)
  /-- The numbers of nodes that were computed and that changed. -/
  | propagated (recomputed changed : Nat)
  | fetchFailed (key : FactKey) (error : FetchError)
  | compileFailed (id : ConstraintId) (error : CompileError)
  deriving DecidableEq

/-- What a registration reports, given the engine after it. -/
def Engine.eventsOfAdd (after : Engine) (c : Constraint) :
    Except ServiceError Registered → List Event
  | .error (.notCompiled id error) => [.compileFailed id error]
  | .error _ => []
  | .ok registered =>
    let added := Event.added registered.id c.permission after.network.size
    match registered.kind with
    | .unchanged => []
    | .added => [added]
    | .replaced old => [.replaced registered.id old, added]

/-- What a removal reports, given the engine after it. -/
def Engine.eventsOfRemove (after : Engine) (id : ConstraintId) :
    Except ServiceError Removed → List Event
  | .error _ => []
  | .ok _ => [.removed id after.network.size]

/-- What a batch reports. -/
def Batch.events (b : Batch) : List Event :=
  .propagated b.propagation.recomputed b.propagation.changed.length :: b.records.map .activation

end Mandate
