import Mandate.Provider.Access
import Mandate.Service.Call

/-!
# The service in time

Calls of the service run side by side on one thread.  An action is what happens between two waits
of a call, or of the listener that applies pushed news.  Time stands still while any action is
possible; then it moves on to the next moment at which the provider answers or a fetch times out.

Every fetch needs a permit, which it keeps until it ends; those that find none wait in line.  A
fetch is given up when its time is over, counted from its permit.

Main definitions:

* `Timeline`: the service, its provider, and the calls in progress.
* `Action`, `Timeline.next?`, `Timeline.perform`: what can happen now, and what it does.
* `Timeline.settle`: everything that can happen now.
* `Timeline.nextMoment?`, `Timeline.advance`: the passing of time.
* `Timeline.begin`, `Timeline.join`, `Timeline.call`, `Timeline.sleep`: calls, and waiting.
-/

namespace Mandate

/-- A call of the service. -/
structure CallId where
  number : Nat
  deriving DecidableEq

/-- A call in progress. -/
structure Call where
  id : CallId
  stage : Stage
  /-- When the provider ends the subscriptions that the call wants to end, if it agrees to. -/
  wake : Option Moment := none

/-- How far a fetch has come. -/
inductive FetchState
  /-- It waits for a permit. -/
  | queued
  /-- The provider answers at one moment, and the time is over at the other. -/
  | running (due deadline : Moment)
  | finished (value : Option FactValue)
  deriving DecidableEq

/-- A fetch of a fact, on behalf of a call. -/
structure Fetch where
  call : CallId
  key : FactKey
  state : FetchState := .queued
  deriving DecidableEq

namespace Fetch

/-- The fetch has a permit. -/
def isRunning (f : Fetch) : Bool :=
  match f.state with
  | .running _ _ => true
  | _ => false

/-- The news that the fetch brings, once it is finished. -/
def news? (f : Fetch) : Option FactUpdate :=
  match f.state with
  | .finished value => some ⟨f.key, value⟩
  | _ => none

/-- When a running fetch ends. -/
def ending? (f : Fetch) : Option Moment :=
  match f.state with
  | .running due deadline => some (min due deadline)
  | _ => none

end Fetch

/-- The service at one moment, with all that is going on. -/
structure Timeline where
  service : Service
  provider : Provider
  now : Moment := 0
  /-- The calls that have not been collected, the oldest in front. -/
  calls : List Call := []
  /-- The calls in front of the gate, the one that came first in front. -/
  gateQueue : List CallId := []
  /-- The fetches of all pulls in progress, in the order in which they came. -/
  fetches : List Fetch := []
  /-- The pushed news that nobody has read. -/
  inbox : List FactUpdate := []
  /-- Somebody reads pushed news. -/
  listening : Bool := false
  /-- The number of announced records that have been heard. -/
  heard : Nat := 0
  /-- The number of calls so far. -/
  callCount : Nat := 0

/-- What can happen without time passing. -/
inductive Action
  /-- A call enters the gate. -/
  | enterGate (id : CallId) (keys : List FactKey) (reply : Reply)
  /-- Subscriptions end for a call. -/
  | unsubscribe (call : Call) (keys wanted : List FactKey) (reply : Reply)
  /-- Subscriptions begin for a call. -/
  | subscribe (id : CallId) (keys : List FactKey) (reply : Reply)
  /-- A fetch ends, with the provider's answer if `answered`. -/
  | endFetch (index : Nat) (key : FactKey) (answered : Bool)
  /-- A fetch gets a permit. -/
  | startFetch (index : Nat) (key : FactKey)
  /-- A call has all its facts. -/
  | endPull (id : CallId) (plan : PullPlan) (retries : Nat) (reply : Option Reply)
  /-- The listener reads all pushed news. -/
  | listen

namespace Timeline

/-- The sink that the service hands over to its provider. -/
def sink : SinkId := ⟨"service"⟩

/-! ## Possible actions -/

/-- The call with an identity. -/
def call? (t : Timeline) (id : CallId) : Option Call :=
  t.calls.find? (·.id = id)

/-- The first call in front of an open gate may enter. -/
def nextAtGate? (t : Timeline) : Option Action :=
  match t.service.gateTaken, t.gateQueue with
  | false, id :: _ =>
    match (t.call? id).map Call.stage with
    | some (.gate keys reply) => some (.enterGate id keys reply)
    | _ => none
  | _, _ => none

/-- The fetches of a call have all come to an end. -/
def allFinished (t : Timeline) (id : CallId) : Bool :=
  t.fetches.all fun f => f.call ≠ id || f.news?.isSome

/-- What a call can do without a permit. -/
def nextOfCall? (t : Timeline) (c : Call) : Option Action :=
  match c.stage with
  | .unsubscribing keys wanted reply =>
    if c.wake.all (· ≤ t.now) then some (.unsubscribe c keys wanted reply) else none
  | .subscribing keys reply => some (.subscribe c.id keys reply)
  | .pulling plan retries reply =>
    if t.allFinished c.id then some (.endPull c.id plan retries reply) else none
  | _ => none

/-- What a fetch can do; `free` says that there is a permit for it. -/
def nextOfFetch? (t : Timeline) (free : Bool) (f : Fetch) (index : Nat) : Option Action :=
  match f.state with
  | .running due deadline =>
    if due ≤ t.now ∧ due ≤ deadline then some (.endFetch index f.key true)
    else if deadline ≤ t.now then some (.endFetch index f.key false)
    else none
  | .queued => if free then some (.startFetch index f.key) else none
  | .finished _ => none

/-- What the first fetch that can do anything does.  Fetches that are running come before those
that wait for a permit. -/
def nextFetch? (t : Timeline) : Option Action :=
  let indexed := t.fetches.zipIdx
  let free := (t.fetches.filter Fetch.isRunning).length < t.service.permits
  (indexed.findSome? fun (f, i) => t.nextOfFetch? false f i).or
    (indexed.findSome? fun (f, i) => t.nextOfFetch? free f i)

/-- The listener has something to read. -/
def nextNews? (t : Timeline) : Option Action :=
  if t.listening && !t.inbox.isEmpty then some .listen else none

/-- What happens next, if anything can happen now. -/
def next? (t : Timeline) : Option Action :=
  t.nextAtGate?.or (t.nextFetch?.or ((t.calls.findSome? t.nextOfCall?).or t.nextNews?))

/-! ## Actions -/

/-- Changes the stage of a call, which may have just begun. -/
def setCall (t : Timeline) (call : Call) : Timeline :=
  let calls :=
    if t.calls.any (·.id = call.id) then t.calls.map fun c => if c.id = call.id then call else c
    else t.calls ++ [call]
  { t with calls }

/-- Brings a call to its next wait, which begins at once: it joins the line in front of the gate,
asks the provider to end subscriptions, or lines up its fetches. -/
def place (t : Timeline) (id : CallId) (next : Service × Stage) : Timeline :=
  let (service, stage) := next
  let t := { t with service }
  match stage with
  | .gate _ _ => { t.setCall { id, stage } with gateQueue := t.gateQueue ++ [id] }
  | .unsubscribing _ _ _ =>
    let (provider, delay) := t.provider.beginUnsubscribe
    { t.setCall { id, stage, wake := delay.map (t.now + ·) } with provider }
  | .pulling plan _ _ =>
    { t.setCall { id, stage } with
      fetches := t.fetches ++ plan.keys.map fun key => { call := id, key } }
  | .subscribing _ _ | .done _ => t.setCall { id, stage }

/-- Changes the state of a fetch. -/
def setFetch (t : Timeline) (index : Nat) (state : FetchState) : Timeline :=
  { t with fetches := t.fetches.modify index fun f => { f with state } }

/-- The provider's answer to a fetch, or the end of its time. -/
def fetchResult (t : Timeline) (key : FactKey) (answered : Bool) : Fetched :=
  if answered then t.provider.answer key else .error (.timeout key)

/-- Does what can happen. -/
def perform (t : Timeline) : Action → Timeline
  | .enterGate id keys reply =>
    { t with gateQueue := t.gateQueue.erase id }.place id (t.service.enterGate keys reply)
  | .unsubscribe c keys wanted reply =>
    let provider := if c.wake.isSome then t.provider.endUnsubscribe sink keys else t.provider
    { t with provider }.place c.id (t.service.unsubscribed keys wanted reply c.wake.isSome)
  | .subscribe id keys reply =>
    let (provider, agreed) := t.provider.subscribe sink keys
    { t with provider }.place id (t.service.resubscribed keys reply agreed)
  | .endFetch index key answered =>
    let (service, value) := t.service.resolve key (t.fetchResult key answered)
    { t with service }.setFetch index (.finished value)
  | .startFetch index key =>
    let (provider, delay) := t.provider.beginFetch key
    { t with provider }.setFetch index
      (.running (t.now + delay.getD 0) (t.now + t.service.config.provider.fetchTimeout))
  | .endPull id plan retries reply =>
    let (own, others) := t.fetches.partition (·.call = id)
    { t with fetches := others }.place id
      (t.service.fetched plan retries reply (own.filterMap Fetch.news?) t.now)
  | .listen =>
    { t with service := (t.service.updateFacts t.inbox t.now).1, inbox := [] }

/-- Does what can happen, at most `count` times. -/
def settleFor : (count : Nat) → Timeline → Timeline
  | 0, t => t
  | count + 1, t =>
    match t.next? with
    | some action => settleFor count (t.perform action)
    | none => t

/-- A bound on the number of actions.  A call passes the gate once, ends and begins subscriptions
once, and pulls at most three times; a pull starts and ends a fetch for at most every fact that the
network follows. -/
def budget (t : Timeline) : Nat :=
  let pull := 2 * t.service.engine.network.leaves.size + 1
  (t.calls.length + 1) * (3 * pull + 4) + 2 * t.fetches.length

/-- Does everything that can happen now. -/
def settle (t : Timeline) : Timeline :=
  settleFor t.budget t

/-! ## Time -/

/-- When a call goes on by itself. -/
def wake? (c : Call) : Option Moment :=
  match c.stage with
  | .unsubscribing _ _ _ => c.wake
  | _ => none

/-- The next moment at which something can happen. -/
def nextMoment? (t : Timeline) : Option Moment :=
  (t.fetches.filterMap Fetch.ending? ++ t.calls.filterMap wake?).min?

/-- Does everything that can happen up to the moment at which `stop` holds or nothing is left to
wait for before the end; `count` bounds the moments on the way. -/
def advance (stop : Timeline → Bool) (end? : Option Moment) : (count : Nat) → Timeline → Timeline
  | 0, t => t.settle
  | count + 1, t =>
    let t := t.settle
    if stop t then t
    else
      match t.nextMoment?, end? with
      | some moment, none => advance stop end? count { t with now := moment }
      | some moment, some last =>
        if moment ≤ last then advance stop end? count { t with now := moment }
        else { t with now := last }
      | none, some last => { t with now := last }
      | none, none => t

/-- Lets some milliseconds pass. -/
def sleep (t : Timeline) (milliseconds : Nat) : Timeline :=
  t.advance (fun _ => false) (some (t.now + milliseconds)) (t.budget + 1)

/-! ## Calls -/

/-- How a call has ended, if it has. -/
def outcome? (t : Timeline) (id : CallId) : Option Outcome :=
  match (t.call? id).map Call.stage with
  | some (.done outcome) => some outcome
  | _ => none

/-- Begins a call, which goes on while others do. -/
def begin (t : Timeline) (request : Request) : Timeline × CallId :=
  let id : CallId := ⟨t.callCount⟩
  let t := { t with callCount := t.callCount + 1 }
  (t.place id (t.service.begin request) |>.settle, id)

/-- Waits for the end of a call and collects it. -/
def join (t : Timeline) (id : CallId) : Timeline × Option Outcome :=
  let t := t.advance (fun t => (t.outcome? id).isSome) none (t.budget + 1)
  ({ t with calls := t.calls.filter (·.id ≠ id) }, t.outcome? id)

/-- Makes a call and waits for its end. -/
def call (t : Timeline) (request : Request) : Timeline × Option Outcome :=
  let (t, id) := t.begin request
  t.join id

/-! ## News -/

/-- Applies news at once. -/
def updateFacts (t : Timeline) (news : List FactUpdate) : Timeline × List ActivationRecord :=
  let (service, records) := t.service.updateFacts news t.now
  ({ t with service }.settle, records)

/-- Changes the provider by some news, one after the other; what is pushed to the service waits to
be read. -/
def feed (f : Provider → FactUpdate → Provider × List Delivery) (t : Timeline)
    (news : List FactUpdate) : Timeline :=
  let t := news.foldl (fun t news =>
    let (provider, deliveries) := f t.provider news
    { t with provider, inbox := t.inbox ++ deliveries.map Delivery.news }) t
  t.settle

/-- Starts to read pushed news; tells whether nobody did so before. -/
def startListening (t : Timeline) : Timeline × Bool :=
  ({ t with listening := true }.settle, !t.listening)

/-- The records that have been announced since the last time. -/
def transitions (t : Timeline) : Timeline × List ActivationRecord :=
  ({ t with heard := t.service.announced.length }, t.service.announced.drop t.heard)

/-- The reports to the console since the last time. -/
def takeJournal (t : Timeline) : Timeline × List Event :=
  ({ t with service.journal := [] }, t.service.journal)

end Timeline
end Mandate
