import Mandate.Engine.Pull
import Mandate.Fact.Json

/-!
# Queries

What the engine tells about its constraints, and the snapshot that answers the same questions when
the engine itself is busy.

Main definitions:

* `Engine.status`, `Engine.history`, `Engine.get`, `Engine.owner?`, `Engine.knownFacts`.
* `Snapshot`, `Engine.snapshot`, and the queries of a snapshot.
-/

namespace Mandate

/-- A value that an identity has, or the error that it is unknown. -/
def orNotFound {α : Type} (id : ConstraintId) : Option α → Except ServiceError α
  | some a => .ok a
  | none => .error (.notFound id)

namespace Engine

/-- The state of a constraint. -/
def status (e : Engine) (id : ConstraintId) : Except ServiceError ActivationStatus :=
  orNotFound id (e.productions[id]?.map Production.status)

/-- The changes of state of a constraint, also of one that is no longer registered if its history
was retained. -/
def history (e : Engine) (id : ConstraintId) : Except ServiceError (List ActivationRecord) :=
  match e.productions[id]? with
  | some p => .ok p.history
  | none => orNotFound id e.retired[id]?

/-- A registered constraint. -/
def get (e : Engine) (id : ConstraintId) : Except ServiceError Constraint :=
  orNotFound id (e.registry.get? id)

/-- The registered constraints in the order of identities. -/
def list (e : Engine) : List (ConstraintId × Constraint) :=
  e.registry.toList

/-- The constraint of a permission. -/
def owner? (e : Engine) (permission : PermId) : Option ConstraintId :=
  e.registry.owner? permission

/-- The root of a production. -/
def root? (e : Engine) (id : ConstraintId) : Option NodeId :=
  e.productions[id]?.map Production.root

/-- The facts that leaves hold, in the order of keys. -/
def knownFacts (e : Engine) : List Fact :=
  e.network.subscriptions.filterMap fun key => (e.network.input key).map (⟨key, ·⟩)

end Engine

/-- All answers to queries at one time. -/
structure Snapshot where
  constraints : Std.TreeMap ConstraintId Constraint := ∅
  owners : Std.TreeMap PermId ConstraintId := ∅
  statuses : Std.TreeMap ConstraintId ActivationStatus := ∅
  histories : Std.TreeMap ConstraintId (List ActivationRecord) := ∅
  /-- The number of nodes of the network. -/
  nodes : Nat := 0

/-- The answers that the engine gives now. -/
def Engine.snapshot (e : Engine) : Snapshot :=
  let productions := e.productions.toList
  { constraints := e.registry.constraints
    owners := Std.TreeMap.ofList (productions.map fun (_, p) => (p.constraint.permission, p.id))
    statuses := Std.TreeMap.ofList (productions.map fun (id, p) => (id, p.status))
    histories := productions.foldl (fun hs (id, p) => hs.insert id p.history) e.retired
    nodes := e.network.size }

namespace Snapshot

/-- The state of a constraint. -/
def status (s : Snapshot) (id : ConstraintId) : Except ServiceError ActivationStatus :=
  orNotFound id s.statuses[id]?

/-- The changes of state of a constraint. -/
def history (s : Snapshot) (id : ConstraintId) : Except ServiceError (List ActivationRecord) :=
  orNotFound id s.histories[id]?

/-- A registered constraint. -/
def get (s : Snapshot) (id : ConstraintId) : Except ServiceError Constraint :=
  orNotFound id s.constraints[id]?

/-- The registered constraints in the order of identities. -/
def list (s : Snapshot) : List (ConstraintId × Constraint) :=
  s.constraints.toList

/-- The constraint of a permission. -/
def owner? (s : Snapshot) (permission : PermId) : Option ConstraintId :=
  s.owners[permission]?

/-- The number of registered constraints. -/
def size (s : Snapshot) : Nat :=
  s.constraints.size

end Snapshot

end Mandate
