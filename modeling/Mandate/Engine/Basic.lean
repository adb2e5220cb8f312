import Mandate.Analysis.Reads
import Mandate.Engine.Production
import Mandate.Network.Build
import Mandate.Network.Propagation
import Mandate.Network.Release
import Mandate.Registry

/-!
# The engine

The engine keeps the registry, the network and the productions in step.  Every operation takes an
engine to the next one; an operation that fails leaves it as it is.

Main definitions:

* `Engine`: the state.
* `Engine.add`, `Engine.remove`: registration.
* `Engine.apply`: a batch of news, and the changes of state that it causes.
* `ServiceError`: why an operation fails.
-/

namespace Mandate

/-- Why an operation fails. -/
inductive ServiceError
  /-- The constraint is not admissible. -/
  | rejected (reason : Rejection)
  /-- The permission has another constraint, and that one may not be replaced. -/
  | duplicate (permission : PermId) (existing : ConstraintId)
  | notFound (id : ConstraintId)
  /-- The constraint has no circuit. -/
  | notCompiled (id : ConstraintId) (reason : CompileError)
  deriving DecidableEq

/-- The wording of the error. -/
def ServiceError.message? : ServiceError → Option String
  | .rejected reason => reason.message?
  | .duplicate permission existing =>
    some ("permission " ++ permission.text ++ " already has constraint " ++ existing.text)
  | .notFound id => some ("constraint " ++ id.text ++ " not found")
  | .notCompiled id reason =>
    some ("Internal error: failed to compile " ++ id.text ++ ": " ++ reason.message)

/-- How a registration changed the registry. -/
inductive Registration
  | added
  /-- The constraint was there already. -/
  | unchanged
  | replaced (old : ConstraintId)
  deriving DecidableEq

/-- A successful registration. -/
structure Registered where
  id : ConstraintId
  kind : Registration
  /-- The facts that are followed for the first time. -/
  newFacts : List FactKey
  /-- The facts that are no longer followed. -/
  droppedFacts : List FactKey
  deriving DecidableEq

/-- A successful removal. -/
structure Removed where
  constraint : Constraint
  /-- The facts that are no longer followed. -/
  droppedFacts : List FactKey
  deriving DecidableEq

/-- What a batch of news did. -/
structure Batch where
  propagation : Propagation
  /-- The changes of state, in order. -/
  records : List ActivationRecord
  deriving DecidableEq

/-- The state of the engine. -/
structure Engine where
  config : RegistryConfig := {}
  registry : Registry := {}
  /-- In an engine only nodes and productions refer to nodes, and there are fewer of them than a
  count has values; so references are counted without a bound. -/
  network : Network := { wrapsAt := 0 }
  productions : Std.TreeMap ConstraintId Production := ∅
  /-- The histories of constraints that are no longer registered. -/
  retired : Std.TreeMap ConstraintId (List ActivationRecord) := ∅
  /-- Counts the registrations. -/
  generation : Nat := 0
  /-- Counts the records. -/
  sequence : Nat := 0

namespace Engine

/-! ## Registration -/

/-- Takes a production out and releases its root. -/
def withdraw (e : Engine) (p : Production) : Engine × Removed :=
  let constraint := (e.registry.get? p.id).getD p.constraint
  let released := e.network.release p.root
  let e :=
    { e with
      registry := e.registry.erase p.id
      network := released.network
      productions := e.productions.erase p.id
      retired := if e.config.retainHistory then e.retired.insert p.id p.history else e.retired }
  (e, ⟨constraint, released.dropped⟩)

/-- Takes the production of an identity out, if there is one, and tells which facts are no longer
followed. -/
def displace (e : Engine) (id : ConstraintId) : Engine × List FactKey :=
  match e.productions[id]? with
  | some p =>
    let (e, removed) := e.withdraw p
    (e, removed.droppedFacts)
  | none => (e, [])

/-- Enters a constraint whose root is in the network.  A production that comes back has its history
again. -/
def enter (e : Engine) (id : ConstraintId) (c : Constraint) (root : NodeId) : Engine :=
  let generation := e.generation + 1
  let p : Production :=
    { id, constraint := c, root, facts := c.referencedFacts, generation,
      history := e.retired[id]?.getD [] }
  { e with
    registry := e.registry.insert id c
    productions := e.productions.insert id p
    retired := e.retired.erase id
    generation }

/-- Registers a constraint, in the place of an old one if there is one.  The old production goes
only after the new circuit has been built, so what they share stays. -/
def install (e : Engine) (id : ConstraintId) (c : Constraint) (old : Option ConstraintId) :
    Engine × Except ServiceError Registered :=
  match e.network.compile c with
  | .error reason => (e, .error (.notCompiled id reason))
  | .ok built =>
    let e := { e with network := built.network }
    match old with
    | none => (e.enter id c built.root, .ok ⟨id, .added, built.newFacts, []⟩)
    | some old =>
      let (e, dropped) := e.displace old
      (e.enter id c built.root, .ok ⟨id, .replaced old, built.newFacts, dropped⟩)

/-- Registers a constraint, which need not be admissible.  Its state is unknown at first. -/
def add (e : Engine) (c : Constraint) : Engine × Except ServiceError Registered :=
  let id := ConstraintId.derive c
  match e.registry.admission id c.permission e.config.duplicatePolicy with
  | .error existing => (e, .error (.duplicate c.permission existing))
  | .ok .existing => (e, .ok ⟨id, .unchanged, [], []⟩)
  | .ok .new => e.install id c none
  | .ok (.replaces old) => e.install id c (some old)

/-- Removes a constraint and all nodes that no other one needs. -/
def remove (e : Engine) (id : ConstraintId) : Engine × Except ServiceError Removed :=
  match e.productions[id]? with
  | none => (e, .error (.notFound id))
  | some p =>
    let (e, removed) := e.withdraw p
    (e, .ok removed)

/-! ## News -/

/-- Supplies news to the network, and lists the facts whose input has changed. -/
def supply (net : Network) : List FactUpdate → Network × List FactKey
  | [] => (net, [])
  | news :: rest =>
    let (net, changed) := net.setFact news.key news.value
    let (net, touched) := supply net rest
    (net, if changed then news.key :: touched else touched)

/-- Settles the productions that are due, one after the other; `last` is the sequence number of the
last record before. -/
def settleAll (due : Production → Bool) (value : NodeId → Value) (now : Moment) :
    (last : Nat) → List (ConstraintId × Production) →
      List (ConstraintId × Production) × List ActivationRecord
  | _, [] => ([], [])
  | last, (id, p) :: rest =>
    if due p then
      let (p, record) := p.settle (value p.root) now (last + 1)
      let (settled, records) := settleAll due value now (last + record.toList.length) rest
      ((id, p) :: settled, record.toList ++ records)
    else
      let (settled, records) := settleAll due value now last rest
      ((id, p) :: settled, records)

/-- A production is due if it is asked for, if its root has changed, or if a fact that it reads has
been touched. -/
def isDue (asked : Option ConstraintId) (changed : List NodeId) (touched : List FactKey)
    (p : Production) : Bool :=
  asked = some p.id || changed.contains p.root || p.facts.any touched.contains

/-- The productions in the order in which a batch visits them. -/
def visited (e : Engine) (now : Occasion) : List (ConstraintId × Production) :=
  e.productions.toList.mergeSort fun a b => now.rank a.1 ≤ now.rank b.1

/-- Applies a batch of news and settles what is due, in the order of the occasion. -/
def apply (e : Engine) (news : List FactUpdate) (asked : Option ConstraintId) (now : Occasion) :
    Engine × Batch :=
  let (net, touched) := supply e.network news
  let (net, propagation) := net.propagate
  let due := isDue asked propagation.changed touched
  let (settled, records) := settleAll due net.value now.moment e.sequence (e.visited now)
  let e :=
    { e with
      network := net
      productions := Std.TreeMap.ofList settled
      sequence := e.sequence + records.length }
  (e, ⟨propagation, records⟩)

/-- Applies pushed news as one batch. -/
def applyFacts (e : Engine) (news : List FactUpdate) (now : Occasion) : Engine × Batch :=
  e.apply news none now

end Engine
end Mandate
