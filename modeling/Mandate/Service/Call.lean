import Mandate.Service.Basic

/-!
# Calls of the service

A call changes the engine at once and then waits: for the gate, behind which one call at a time
brings the provider's subscriptions in line with the network; for the provider to end or to begin
subscriptions; or for facts.  Which facts have to be subscribed is decided behind the gate, on the
network as it is then, so an unsubscription never undoes what a later registration needs.

Main definitions:

* `Request`, `Reply`: what is asked and answered.
* `Stage`: what a call waits for.
* `Service.begin`: a call up to its first wait.
* `Service.enterGate`, `Service.unsubscribed`, `Service.resubscribed`, `Service.fetched`: a call
  from one wait to the next.
-/

namespace Mandate

/-- What is asked of the service. -/
inductive Request
  | add (c : Constraint)
  /-- A constraint as a document. -/
  | addText (text : String)
  | remove (id : ConstraintId)
  | check (id : ConstraintId)
  deriving DecidableEq

/-- The answer to a request. -/
inductive Reply
  | registered (id : ConstraintId) (replaced : Option ConstraintId)
  | removed (c : Constraint)
  | status (status : ActivationStatus)
  deriving DecidableEq

/-- The end of a call. -/
abbrev Outcome := Except ServiceError Reply

/-- What a call waits for.  A call that has changed the engine knows what it is going to reply. -/
inductive Stage
  /-- Its turn to bring the subscriptions of some facts in line. -/
  | gate (keys : List FactKey) (reply : Reply)
  /-- The end of subscriptions, before `wanted` ones may begin. -/
  | unsubscribing (keys wanted : List FactKey) (reply : Reply)
  /-- The beginning of subscriptions. -/
  | subscribing (keys : List FactKey) (reply : Reply)
  /-- The facts of a plan; the pull may start over `retries` times.  Without a reply of its own the
  call replies the status that results. -/
  | pulling (plan : PullPlan) (retries : Nat) (reply : Option Reply)
  | done (outcome : Outcome)

/-- How often a pull starts over for a constraint that keeps being registered again. -/
def maxRetries : Nat := 2

namespace Service

/-- The end of a pull.  A registration succeeds even if its constraint is gone by now. -/
def endPull (s : Service) (reply : Option Reply) (result : Except ServiceError ActivationStatus) :
    Service × Stage :=
  match reply, result with
  | none, .ok status => (s, .done (.ok (.status status)))
  | some reply, .ok _ => (s, .done (.ok reply))
  | some reply, .error (.notFound _) => (s, .done (.ok reply))
  | _, .error e => (s, .done (.error e))

/-- Plans a pull of a constraint. -/
def beginPull (s : Service) (id : ConstraintId) (retries : Nat) (reply : Option Reply) :
    Service × Stage :=
  match s.engine.pullPlan id with
  | .ok plan => (s, .pulling plan retries reply)
  | .error e => s.endPull reply (.error e)

/-- Goes on when the subscriptions are in line: a new constraint is evaluated. -/
def proceed (s : Service) (reply : Reply) : Service × Stage :=
  match reply, s.config.registry.evaluateOnRegister with
  | .registered id _, true => s.beginPull id maxRetries (some reply)
  | _, _ => (s, .done (.ok reply))

/-- Leaves the gate to others. -/
def leaveGate (s : Service) (reply : Reply) : Service × Stage :=
  { s with gateTaken := false }.proceed reply

/-- Brings the subscriptions of some facts in line, if there are any. -/
def synchronize (s : Service) (keys : List FactKey) (reply : Reply) : Service × Stage :=
  if keys.isEmpty then s.proceed reply else (s, .gate keys reply)

/-- Begins the subscriptions that are wanted and not there. -/
def resubscribe (s : Service) (wanted : List FactKey) (reply : Reply) : Service × Stage :=
  let missing := wanted.filter fun key => !s.subscribed.contains key
  if missing.isEmpty then s.leaveGate reply else (s, .subscribing missing reply)

/-- Enters the gate and ends the subscriptions of facts that the network no longer follows. -/
def enterGate (s : Service) (keys : List FactKey) (reply : Reply) : Service × Stage :=
  let s := { s with gateTaken := true }
  let (wanted, unwanted) := keys.partition s.engine.network.isSubscribed
  let stale := unwanted.filter s.subscribed.contains
  if stale.isEmpty then s.resubscribe wanted reply else (s, .unsubscribing stale wanted reply)

/-- The provider has ended subscriptions, or has refused to. -/
def unsubscribed (s : Service) (keys wanted : List FactKey) (reply : Reply) (agreed : Bool) :
    Service × Stage :=
  let s := if agreed then { s with subscribed := keys.foldl .erase s.subscribed } else s
  s.resubscribe wanted reply

/-- The provider has begun subscriptions, or has refused to. -/
def resubscribed (s : Service) (keys : List FactKey) (reply : Reply) (agreed : Bool) :
    Service × Stage :=
  let s := if agreed then { s with subscribed := keys.foldl .insert s.subscribed } else s
  s.leaveGate reply

/-- The facts of a plan have been fetched.  If the constraint has been registered again since, the
pull starts over. -/
def fetched (s : Service) (plan : PullPlan) (retries : Nat) (reply : Option Reply)
    (news : List FactUpdate) (now : Occasion) : Service × Stage :=
  let (s, r) := s.finishPull plan news now
  match r, retries with
  | .error e, _ => s.endPull reply (.error e)
  | .ok (.applied status _), _ => s.endPull reply (.ok status)
  | .ok .superseded, retries + 1 => s.beginPull plan.id retries reply
  | .ok .superseded, 0 => s.endPull reply (s.engine.status plan.id)

/-- Registers a constraint that has been checked. -/
def beginAdd (s : Service) (checked : Except Rejection Constraint) : Service × Stage :=
  match checked with
  | .error reason => (s, .done (.error (.rejected reason)))
  | .ok c =>
    let (s, r) := s.register c
    match r with
    | .error e => (s, .done (.error e))
    | .ok registered =>
      let keys := registered.newFacts ++ registered.droppedFacts
      match registered.kind with
      | .unchanged => (s, .done (.ok (.registered registered.id none)))
      | .added => s.synchronize keys (.registered registered.id none)
      | .replaced old => s.synchronize keys (.registered registered.id (some old))

/-- A call up to its first wait. -/
def begin (s : Service) : Request → Service × Stage
  | .add c => s.beginAdd (s.config.limits.accept c)
  | .addText text => s.beginAdd (s.config.limits.decode text)
  | .check id => s.beginPull id maxRetries none
  | .remove id =>
    let (s, r) := s.unregister id
    match r with
    | .error e => (s, .done (.error e))
    | .ok removed => s.synchronize removed.droppedFacts (.removed removed.constraint)

end Service
end Mandate
