import Std.Data.TreeSet
import Mandate.Engine.Event
import Mandate.Engine.Queries

/-!
# The service

The service wraps the engine: it checks constraints, publishes a snapshot after every change, and
announces every record.  What is here happens at once; calls that wait for the provider are made of
such steps.

Main definitions:

* `Service`: the state.
* `Service.register`, `Service.unregister`, `Service.updateFacts`, `Service.finishPull`: the
  changes of the engine.
* `Service.health`, `Service.display`: reports.
-/

namespace Mandate

/-- The state of the service. -/
structure Service where
  config : EngineConfig
  engine : Engine
  /-- The answers to queries, published after the last change. -/
  snapshot : Snapshot := {}
  /-- The facts that the provider has subscribed for the service. -/
  subscribed : Std.TreeSet FactKey := ∅
  /-- Some call is bringing the subscriptions in line. -/
  gateTaken : Bool := false
  /-- All records, in the order in which they were announced. -/
  announced : List ActivationRecord := []
  /-- What has been reported to the console. -/
  journal : List Event := []

namespace Service

/-- A service without constraints. -/
def ofConfig (config : EngineConfig) : Service :=
  { config, engine := { config := config.registry } }

/-- The greatest number of fetches at a time; there is always room for one. -/
def permits (s : Service) : Nat :=
  max s.config.provider.maxConcurrentFetches 1

/-- Reports to the console. -/
def report (s : Service) (events : List Event) : Service :=
  { s with journal := s.journal ++ events }

/-- Goes on with another engine and publishes its snapshot. -/
def publish (s : Service) (e : Engine) : Service :=
  { s with engine := e, snapshot := e.snapshot }

/-- Announces records. -/
def announce (s : Service) (records : List ActivationRecord) : Service :=
  { s with announced := s.announced ++ records }

/-- Registers an admissible constraint. -/
def register (s : Service) (c : Constraint) : Service × Except ServiceError Registered :=
  let (e, r) := s.engine.add c
  let s := s.report (e.eventsOfAdd c r)
  match r with
  | .ok _ => (s.publish e, r)
  | .error _ => ({ s with engine := e }, r)

/-- Unregisters a constraint. -/
def unregister (s : Service) (id : ConstraintId) : Service × Except ServiceError Removed :=
  let (e, r) := s.engine.remove id
  let s := s.report (e.eventsOfRemove id r)
  match r with
  | .ok _ => (s.publish e, r)
  | .error _ => ({ s with engine := e }, r)

/-- Applies pushed news as one batch. -/
def updateFacts (s : Service) (news : List FactUpdate) (now : Occasion) :
    Service × List ActivationRecord :=
  let (e, batch) := s.engine.applyFacts news now
  (((s.report batch.events).publish e).announce batch.records, batch.records)

/-- Applies the facts that were fetched for a plan. -/
def finishPull (s : Service) (plan : PullPlan) (news : List FactUpdate) (now : Occasion) :
    Service × Except ServiceError PullOutcome :=
  let (e, r) := s.engine.applyPull plan news now
  match r with
  | .ok (.applied _ batch) => (((s.report batch.events).publish e).announce batch.records, r)
  | _ => ({ s with engine := e }, r)

/-- The value that an answer to a fetch supplies.  Failures other than an unresolved fact are
reported. -/
def resolve (s : Service) (key : FactKey) : Fetched → Service × Option FactValue
  | .ok value => (s, value)
  | .error (.unresolved _) => (s, none)
  | .error error => (s.report [.fetchFailed key error], none)

/-! ## Reports -/

/-- A report that the service is alive. -/
def health (s : Service) : Json :=
  .object [("status", .text "ok"), ("constraints", .ofNat s.snapshot.size),
    ("nodes", .ofNat s.snapshot.nodes)]

/-- The service as a developer reads it. -/
def display (s : Service) : String :=
  "ConstraintService \x7b constraints: " ++ Decimal.natText s.snapshot.size ++ ", nodes: " ++
    Decimal.natText s.snapshot.nodes ++ " \x7d"

end Service
end Mandate
