import Mandate.Provider.Scripted

/-!
# Access to a provider

What the service asks of a provider: to fetch a fact, to push the changes of facts, and to stop
that.  A fetch and an unsubscription may take their time; they are counted when they begin, and
read or change the provider when they end.

Main definitions:

* `Provider`, `PushMode`: the providers.
* `Provider.beginFetch`, `Provider.answer`: a fetch.
* `Provider.subscribe`, `Provider.beginUnsubscribe`, `Provider.endUnsubscribe`.
-/

namespace Mandate

/-- How a scripted provider takes subscriptions. -/
inductive PushMode
  | direct
  /-- Subscriptions are accepted and ignored. -/
  | ignored
  /-- Subscriptions, or their ends, fail as long as the switch is on. -/
  | failing (subscribe unsubscribe : Bool)
  deriving DecidableEq

/-- A source of facts. -/
inductive Provider
  | memory (p : MemoryProvider)
  | scripted (mode : PushMode) (p : ScriptedProvider)

namespace Provider

/-- Begins a fetch; tells how long it takes, if it takes any time. -/
def beginFetch (p : Provider) (key : FactKey) : Provider × Option Nat :=
  match p with
  | memory p => (memory p, none)
  | scripted mode p => (scripted mode (p.count key), p.delay)

/-- The answer at the end of a fetch. -/
def answer (p : Provider) (key : FactKey) : Fetched :=
  match p with
  | memory p => .ok (p.get? key)
  | scripted _ p => p.answer key

/-- Asks for the changes of facts; tells whether the provider agrees. -/
def subscribe (p : Provider) (sink : SinkId) (keys : List FactKey) : Provider × Bool :=
  match p with
  | memory p => (memory (p.subscribe sink keys), true)
  | scripted .direct p => (scripted .direct (p.subscribe sink keys), true)
  | scripted .ignored p => (scripted .ignored p, true)
  | scripted (.failing true u) p => (scripted (.failing true u) p, false)
  | scripted (.failing false u) p => (scripted (.failing false u) (p.subscribe sink keys), true)

/-- Begins an unsubscription; tells how long it takes, or nothing if the provider refuses. -/
def beginUnsubscribe (p : Provider) : Provider × Option Nat :=
  match p with
  | memory p => (memory p, some 0)
  | scripted .ignored p => (scripted .ignored p, some 0)
  | scripted (.failing s true) p => (scripted (.failing s true) p, none)
  | scripted mode p => (scripted mode p.countUnsubscribe, some (p.unsubscribeDelay.getD 0))

/-- Ends an unsubscription. -/
def endUnsubscribe (p : Provider) (sink : SinkId) (keys : List FactKey) : Provider :=
  match p with
  | memory p => memory (p.unsubscribe sink keys)
  | scripted .ignored p => scripted .ignored p
  | scripted mode p => scripted mode (p.unsubscribe keys)

/-- Changes facts from outside, with every receiver open; what follows for receivers is delivered
in order. -/
def update (p : Provider) (news : FactUpdate) : Provider × List Delivery :=
  match p with
  | memory p =>
    let (p, deliveries) := p.update (fun _ => true) news
    (memory p, deliveries)
  | scripted mode p => (scripted mode (p.update news), [])

/-- Pushes news to every sink that was handed over. -/
def push (p : Provider) (news : FactUpdate) : Provider × List Delivery :=
  match p with
  | memory p => (memory p, [])
  | scripted mode p =>
    let (p, deliveries) := p.push news
    (scripted mode p, deliveries)

/-- Changes the script of a scripted provider. -/
def script (f : ScriptedProvider → ScriptedProvider) : Provider → Provider
  | memory p => memory p
  | scripted mode p => scripted mode (f p)

/-- Turns the switches of a provider that has them. -/
def switch (subscribe unsubscribe : Bool) : Provider → Provider
  | scripted (.failing _ _) p => scripted (.failing subscribe unsubscribe) p
  | p => p

end Provider
end Mandate
