import Mandate.Provider.Memory

/-!
# A scripted provider

A provider whose answers, failures and delays are set from outside, and which counts the calls.

Main definitions:

* `ScriptedProvider` and its operations.
-/

namespace Mandate

/-- A provider that does as it is told. -/
structure ScriptedProvider where
  facts : Std.TreeMap FactKey FactValue := ∅
  /-- The facts whose fetches fail. -/
  failures : Std.TreeMap FactKey FetchError := ∅
  /-- The milliseconds that every fetch takes. -/
  delay : Option Nat := none
  /-- The milliseconds that every unsubscription takes. -/
  unsubscribeDelay : Option Nat := none
  /-- The fetches of each fact. -/
  calls : Std.TreeMap FactKey Nat := ∅
  unsubscribeCalls : Nat := 0
  /-- The sinks that were handed over, the first one in front. -/
  sinks : List SinkId := []
  subscribed : Std.TreeSet FactKey := ∅

namespace ScriptedProvider

/-- The provider with some facts; a later value wins. -/
def ofFacts (facts : List Fact) : ScriptedProvider :=
  { facts := Std.TreeMap.ofList (facts.map fun f => (f.key, f.value)) }

/-- Sets or clears the value of a fact for fetches to come. -/
def update (p : ScriptedProvider) (news : FactUpdate) : ScriptedProvider :=
  { p with facts := match news.value with
      | some value => p.facts.insert news.key value
      | none => p.facts.erase news.key }

/-- Makes every fetch of a fact fail. -/
def fail (p : ScriptedProvider) (key : FactKey) (error : FetchError) : ScriptedProvider :=
  { p with failures := p.failures.insert key error }

/-- Updates a fact and sends the news to every sink. -/
def push (p : ScriptedProvider) (news : FactUpdate) : ScriptedProvider × List Delivery :=
  (p.update news, p.sinks.map (⟨·, news⟩))

/-- The fetches of a fact. -/
def callsFor (p : ScriptedProvider) (key : FactKey) : Nat :=
  p.calls.getD key 0

/-- All fetches. -/
def totalCalls (p : ScriptedProvider) : Nat :=
  p.calls.values.foldr (· + ·) 0

/-- Counts a fetch. -/
def count (p : ScriptedProvider) (key : FactKey) : ScriptedProvider :=
  { p with calls := p.calls.insert key (p.callsFor key + 1) }

/-- The answer to a fetch, at the end of its delay. -/
def answer (p : ScriptedProvider) (key : FactKey) : Fetched :=
  match p.failures[key]? with
  | some error => .error error
  | none => .ok p.facts[key]?

/-- Takes note of a sink and of the facts that it asks for. -/
def subscribe (p : ScriptedProvider) (sink : SinkId) (keys : List FactKey) : ScriptedProvider :=
  { p with
    sinks := if sink ∈ p.sinks then p.sinks else p.sinks ++ [sink]
    subscribed := keys.foldl .insert p.subscribed }

/-- Counts an unsubscription. -/
def countUnsubscribe (p : ScriptedProvider) : ScriptedProvider :=
  { p with unsubscribeCalls := p.unsubscribeCalls + 1 }

/-- Strikes facts from those that are asked for, at the end of the delay. -/
def unsubscribe (p : ScriptedProvider) (keys : List FactKey) : ScriptedProvider :=
  { p with subscribed := keys.foldl .erase p.subscribed }

end ScriptedProvider
end Mandate
