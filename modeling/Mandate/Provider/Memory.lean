import Std.Data.TreeMap
import Std.Data.TreeSet
import Mandate.Provider.Basic

/-!
# A provider in memory

A store of facts that pushes every change to those who watch the fact.  Receivers are known by
their sinks; a sink whose receiver is gone is closed, and is forgotten at the next change.

Main definitions:

* `SinkId`, `Delivery`: who receives what.
* `MemoryProvider`, `MemoryProvider.set`, `MemoryProvider.unset`: the store.
* `MemoryProvider.subscribe`, `MemoryProvider.unsubscribe`: who watches what.
* `Channels`: what the sinks have received.
-/

namespace Mandate

/-- The way to a receiver of news. -/
structure SinkId where
  name : String
  deriving DecidableEq

/-- News on the way to a receiver. -/
structure Delivery where
  sink : SinkId
  news : FactUpdate
  deriving DecidableEq

/-- A receiver with the facts that it watches. -/
structure Watcher where
  sink : SinkId
  keys : Std.TreeSet FactKey

/-- A store of facts. -/
structure MemoryProvider where
  facts : Std.TreeMap FactKey FactValue := ∅
  /-- The receivers, those that came first in front. -/
  watchers : List Watcher := []

namespace MemoryProvider

/-- The store with some facts; a later value wins. -/
def ofFacts (facts : List Fact) : MemoryProvider :=
  { facts := Std.TreeMap.ofList (facts.map fun f => (f.key, f.value)) }

/-- The value of a fact. -/
def get? (p : MemoryProvider) (key : FactKey) : Option FactValue :=
  p.facts[key]?

/-- The number of facts. -/
def size (p : MemoryProvider) : Nat :=
  p.facts.size

/-- Forgets closed sinks and sends news to all that watch the fact. -/
def notify (isOpen : SinkId → Bool) (p : MemoryProvider) (news : FactUpdate) :
    MemoryProvider × List Delivery :=
  let watchers := p.watchers.filter fun w => isOpen w.sink
  let watching := watchers.filter fun w => w.keys.contains news.key
  ({ p with watchers }, watching.map fun w => ⟨w.sink, news⟩)

/-- Stores a fact. -/
def set (isOpen : SinkId → Bool) (p : MemoryProvider) (key : FactKey) (value : FactValue) :
    MemoryProvider × List Delivery :=
  notify isOpen { p with facts := p.facts.insert key value } ⟨key, some value⟩

/-- Forgets a fact.  It becomes unresolved for those who watch it, unless it was not stored. -/
def unset (isOpen : SinkId → Bool) (p : MemoryProvider) (key : FactKey) :
    MemoryProvider × List Delivery :=
  match p.get? key with
  | some _ => notify isOpen { p with facts := p.facts.erase key } ⟨key, none⟩
  | none => (p, [])

/-- Stores a value, or forgets the fact. -/
def update (isOpen : SinkId → Bool) (p : MemoryProvider) (news : FactUpdate) :
    MemoryProvider × List Delivery :=
  match news.value with
  | some value => p.set isOpen news.key value
  | none => p.unset isOpen news.key

/-- Adds keys to what a sink watches; a sink that is not known yet comes last. -/
def watch (sink : SinkId) (keys : List FactKey) : List Watcher → List Watcher
  | [] => [⟨sink, Std.TreeSet.ofList keys⟩]
  | w :: rest =>
    if w.sink = sink then ⟨sink, keys.foldl .insert w.keys⟩ :: rest
    else w :: watch sink keys rest

/-- Starts pushing changes of the facts into a sink. -/
def subscribe (p : MemoryProvider) (sink : SinkId) (keys : List FactKey) : MemoryProvider :=
  { p with watchers := watch sink keys p.watchers }

/-- Stops pushing changes of the facts into a sink. -/
def unsubscribe (p : MemoryProvider) (sink : SinkId) (keys : List FactKey) : MemoryProvider :=
  { p with watchers := p.watchers.map fun w =>
      if w.sink = sink then { w with keys := keys.foldl .erase w.keys } else w }

/-- The facts that somebody watches, in the order of keys. -/
def watched (p : MemoryProvider) : List FactKey :=
  (Std.TreeSet.ofList (p.watchers.flatMap fun w => w.keys.toList)).toList

end MemoryProvider

/-! ## Channels -/

/-- The receiver of a sink. -/
structure Channel where
  sink : SinkId
  isOpen : Bool := true
  /-- The news that have not been read, the oldest in front. -/
  unread : List FactUpdate := []

/-- All receivers; one that is not listed is open and has received nothing. -/
abbrev Channels := List Channel

namespace Channels

/-- The receiver of a sink. -/
def get (cs : Channels) (sink : SinkId) : Channel :=
  (cs.find? fun c => c.sink = sink).getD { sink }

/-- The receivers with one of them changed. -/
def put (cs : Channels) (channel : Channel) : Channels :=
  channel :: cs.filter fun c => c.sink ≠ channel.sink

/-- The receiver of a sink is still there. -/
def isOpen (cs : Channels) (sink : SinkId) : Bool :=
  (cs.get sink).isOpen

/-- Brings news to its receiver, if that is still there. -/
def send (cs : Channels) (d : Delivery) : Channels :=
  let c := cs.get d.sink
  if c.isOpen then cs.put { c with unread := c.unread ++ [d.news] } else cs

/-- Reads everything that a receiver has. -/
def drain (cs : Channels) (sink : SinkId) : Channels × List FactUpdate :=
  let c := cs.get sink
  (cs.put { c with unread := [] }, c.unread)

/-- The receiver of a sink goes away, with everything that it has not read. -/
def close (cs : Channels) (sink : SinkId) : Channels :=
  cs.put { sink, isOpen := false }

end Channels
end Mandate
