import Mathlib.Data.List.Infix
import Mathlib.Logic.Function.Basic
import Mandate.Evaluation
import Mandate.Proofs.Provider.Watching

/-!
# What receivers hear

A provider sends news to its sinks as its store changes, while sinks subscribe, end subscriptions,
and close.  What an open sink has received depends on the calls alone, as if the provider served
nobody else: one message for each change of a fact that the sink was watching, in the order of the
changes.

Main results:

- Definitions `ProviderCall`, `Newswire.perform`, `Newswire.run`: the calls, and what they do.
- Definition `Subscription.perform`: what a call means for one sink.
- Definition `Newswire.Serves`: the sink has received what it is entitled to, and watches what it
  has asked for.
- Theorem `Newswire.Serves.perform`: every call keeps that, as long as the sink is open.
- Theorem `Subscription.current_of_unbroken`: the last message about a fact is its present value.
- Theorem `Newswire.delivers_exactly`: the account of what an open sink has received.
-/

namespace Mandate

/-! ## Channels -/

namespace Channels

variable {cs : Channels} {sink : SinkId}

theorem get_put (cs : Channels) (c : Channel) (sink : SinkId) :
    (cs.put c).get sink = if sink = c.sink then c else cs.get sink := by
  unfold get put
  by_cases hsink : c.sink = sink
  · rw [List.find?_cons_of_pos (by simpa using hsink), if_pos hsink.symm]
    rfl
  · have hkept : ∀ d : Channel, d.sink ≠ c.sink ∧ d.sink = sink ↔ d.sink = sink :=
      fun d => and_iff_right_of_imp fun hd heq => hsink (heq.symm.trans hd)
    rw [List.find?_cons_of_neg (by simpa using hsink), List.find?_filter,
      if_neg fun heq => hsink heq.symm]
    simp only [decide_eq_true_eq, hkept]

theorem get_sink (cs : Channels) (sink : SinkId) : (cs.get sink).sink = sink := by
  unfold get
  cases hfind : cs.find? fun c => c.sink = sink with
  | none => rfl
  | some c => simpa using List.find?_some hfind

/-- News reach their own receiver, and no other one. -/
theorem get_send (cs : Channels) (d : Delivery) (sink : SinkId) :
    (cs.send d).get sink =
      if d.sink = sink ∧ cs.isOpen sink = true then
        { cs.get sink with unread := (cs.get sink).unread ++ [d.news] }
      else cs.get sink := by
  unfold send isOpen
  by_cases hsink : d.sink = sink
  · subst hsink
    by_cases hopen : (cs.get d.sink).isOpen = true
    · simp [hopen, get_put, get_sink]
    · simp [hopen]
  · have hne : ¬ sink = (cs.get d.sink).sink := by
      rw [get_sink]
      exact fun heq => hsink heq.symm
    dsimp only
    split <;> simp [hsink, get_put, hne]

theorem isOpen_send (cs : Channels) (d : Delivery) (sink : SinkId) :
    (cs.send d).isOpen sink = cs.isOpen sink := by
  unfold isOpen
  rw [get_send]
  split <;> rfl

theorem isOpen_foldl_send (ds : List Delivery) (cs : Channels) (sink : SinkId) :
    (ds.foldl send cs).isOpen sink = cs.isOpen sink := by
  induction ds generalizing cs with
  | nil => rfl
  | cons d ds ih => rw [List.foldl_cons, ih, isOpen_send]

/-- Of all news an open receiver gets its own, in order. -/
theorem unread_foldl_send (ds : List Delivery) (hopen : cs.isOpen sink = true) :
    ((ds.foldl send cs).get sink).unread =
      (cs.get sink).unread ++ (ds.filter fun d => d.sink = sink).map Delivery.news := by
  induction ds generalizing cs with
  | nil => simp
  | cons d ds ih =>
    rw [List.foldl_cons, ih ((isOpen_send cs d sink).trans hopen), get_send]
    by_cases hsink : d.sink = sink
    · simp [hsink, hopen]
    · simp [hsink]

end Channels

/-! ## Calls -/

/-- A call of the provider, or something that a receiver does: it reads what it has got, or goes
away. -/
inductive ProviderCall
  | set (key : FactKey) (value : FactValue)
  | unset (key : FactKey)
  | subscribe (sink : SinkId) (keys : List FactKey)
  | unsubscribe (sink : SinkId) (keys : List FactKey)
  | read (sink : SinkId)
  | close (sink : SinkId)

/-- A provider with its receivers. -/
structure Newswire where
  provider : MemoryProvider
  channels : Channels := []
  /-- What the receivers have read. -/
  heard : List Delivery := []

/-- Which sinks the provider holds on to, among those that are open or closed. -/
abbrev Holding :=
  Channels → SinkId → Bool

/-- Open sinks are never given up. -/
def Holding.KeepsOpen (holds : Holding) : Prop :=
  ∀ cs sink, cs.isOpen sink = true → holds cs sink = true

namespace Newswire

/-- A provider with some facts, which nobody watches yet. -/
def ofFacts (facts : List Fact) : Newswire :=
  { provider := .ofFacts facts }

/-- Takes a change of the provider, and sends the news that come with it. -/
def deliver (w : Newswire) (result : MemoryProvider × List Delivery) : Newswire :=
  { w with provider := result.1, channels := result.2.foldl Channels.send w.channels }

/-- What a call does, if the provider gives up all sinks that it does not hold on to. -/
def perform (holds : Holding) (w : Newswire) : ProviderCall → Newswire
  | .set key value => w.deliver (w.provider.set (holds w.channels) key value)
  | .unset key => w.deliver (w.provider.unset (holds w.channels) key)
  | .subscribe sink keys => { w with provider := w.provider.subscribe sink keys }
  | .unsubscribe sink keys => { w with provider := w.provider.unsubscribe sink keys }
  | .read sink =>
    { w with
      channels := (w.channels.drain sink).1
      heard := w.heard ++ (w.channels.drain sink).2.map (⟨sink, ·⟩) }
  | .close sink => { w with channels := w.channels.close sink }

/-- What calls do, one after the other. -/
def run (holds : Holding) (w : Newswire) (calls : List ProviderCall) : Newswire :=
  calls.foldl (perform holds) w

/-- All that a receiver has got, whether it has read it or not. -/
def received (w : Newswire) (sink : SinkId) : List FactUpdate :=
  (w.heard.filter fun d => d.sink = sink).map Delivery.news ++ (w.channels.get sink).unread

end Newswire

/-! ## What one sink is entitled to -/

/-- The store, what a sink has asked for, and the messages that it is entitled to. -/
structure Subscription where
  stored : Facts
  watched : FactKey → Bool := fun _ => false
  messages : List FactUpdate := []

namespace Subscription

/-- Nothing is watched in a store with some facts. -/
def ofFacts (facts : List Fact) : Subscription :=
  { stored := (MemoryProvider.ofFacts facts).get? }

/-- The message that a call is worth to a sink. -/
def announced (s : Subscription) : ProviderCall → List FactUpdate
  | .set key value => if s.watched key then [⟨key, some value⟩] else []
  | .unset key => if s.watched key ∧ s.stored key ≠ none then [⟨key, none⟩] else []
  | _ => []

/-- The store after a call. -/
def storing (s : Subscription) : ProviderCall → Facts
  | .set key value => Function.update s.stored key (some value)
  | .unset key => Function.update s.stored key none
  | _ => s.stored

/-- What a sink watches after a call. -/
def watching (sink : SinkId) (s : Subscription) : ProviderCall → FactKey → Bool
  | .subscribe other keys => fun key => s.watched key || decide (other = sink ∧ key ∈ keys)
  | .unsubscribe other keys => fun key => s.watched key && decide (¬ (other = sink ∧ key ∈ keys))
  | _ => s.watched

/-- What a call means for a sink. -/
def perform (sink : SinkId) (s : Subscription) (call : ProviderCall) : Subscription where
  stored := s.storing call
  watched := s.watching sink call
  messages := s.messages ++ s.announced call

/-- What calls mean for a sink, one after the other. -/
def run (sink : SinkId) (s : Subscription) (calls : List ProviderCall) : Subscription :=
  calls.foldl (perform sink) s

/-- A call that is no news and changes nothing for the sink. -/
theorem perform_eq_self {sink : SinkId} {s : Subscription} {call : ProviderCall}
    (hannounced : s.announced call = []) (hstoring : s.storing call = s.stored)
    (hwatching : s.watching sink call = s.watched) : s.perform sink call = s := by
  rw [perform, hannounced, hstoring, hwatching, List.append_nil]

/-! ### The last message -/

variable {sink : SinkId} {s : Subscription} {key : FactKey} {call : ProviderCall}

/-- The last message about the fact is its present value. -/
def Current (s : Subscription) (key : FactKey) : Prop :=
  (s.messages.filter fun news => news.key = key).getLast? = some ⟨key, s.stored key⟩

/-- A message tells what has become of the fact. -/
theorem value_of_announced {news : FactUpdate} (h : news ∈ s.announced call) :
    news.value = s.storing call news.key := by
  cases call with
  | set key value | unset key =>
    simp only [announced] at h
    split at h
    · rw [List.mem_singleton.1 h, storing, Function.update_self]
    · cases h
  | _ => cases h

/-- A fact that a sink watches does not change without a message. -/
theorem storing_of_not_announced (hwatched : s.watched key = true)
    (hsilent : ∀ news ∈ s.announced call, news.key ≠ key) : s.storing call key = s.stored key := by
  cases call with
  | set changed value =>
    have hne : key ≠ changed := by
      rintro rfl
      exact hsilent ⟨key, some value⟩ (by simp [announced, hwatched]) rfl
    exact Function.update_of_ne hne _ _
  | unset changed =>
    by_cases hkey : key = changed
    · subst hkey
      have hnone : s.stored key = none := by
        by_contra hsome
        exact hsilent ⟨key, none⟩ (by simp [announced, hwatched, hsome]) rfl
      rw [storing, Function.update_self, hnone]
    · exact Function.update_of_ne hkey _ _
  | _ => rfl

theorem length_announced_le (s : Subscription) (call : ProviderCall) :
    (s.announced call).length ≤ 1 := by
  unfold announced
  split
  · split <;> simp
  · split <;> simp
  · simp

/-- After a message about the fact it is the last one. -/
theorem current_of_announced {news : FactUpdate} (h : news ∈ s.announced call) :
    (s.perform sink call).Current news.key := by
  have honly : s.announced call = [news] := by
    rcases List.length_eq_one_iff.1 (Nat.le_antisymm (s.length_announced_le call)
      (List.length_pos_of_mem h)) with ⟨only, honly⟩
    rw [honly, List.mem_singleton] at h
    rw [honly, h]
  have hvalue := value_of_announced h
  simp only [Current, perform, honly, List.filter_append, ← hvalue]
  simp

theorem Current.perform (h : s.Current key) (hwatched : s.watched key = true) :
    (s.perform sink call).Current key := by
  by_cases hnews : ∃ news ∈ s.announced call, news.key = key
  · rcases hnews with ⟨news, hmem, rfl⟩
    exact current_of_announced hmem
  · have hsilent : ∀ news ∈ s.announced call, news.key ≠ key :=
      fun news hmem hkey => hnews ⟨news, hmem, hkey⟩
    have hnone : ((s.announced call).filter fun news => news.key = key) = [] :=
      List.filter_eq_nil_iff.2 (by simpa using hsilent)
    simp only [Current, Subscription.perform, List.filter_append, hnone, List.append_nil,
      storing_of_not_announced hwatched hsilent]
    exact h

theorem Current.run (h : s.Current key) {calls : List ProviderCall}
    (hwatched : ∀ more, more <+: calls → (s.run sink more).watched key = true) :
    (s.run sink calls).Current key := by
  induction calls generalizing s with
  | nil => exact h
  | cons call calls ih =>
    refine ih (h.perform (hwatched [] List.nil_prefix)) fun more hmore => ?_
    exact hwatched (call :: more) ((List.prefix_cons_inj call).2 hmore)

/-- The sink has watched the fact without a break since some message about it, the first one for
example. -/
def Unbroken (s : Subscription) (sink : SinkId) (key : FactKey) (calls : List ProviderCall) :
    Prop :=
  ∃ before call after, calls = before ++ call :: after ∧
    (∃ news ∈ (s.run sink before).announced call, news.key = key) ∧
    ∀ more, more <+: after → (s.run sink (before ++ call :: more)).watched key = true

/-- As long as a sink watches a fact, the last message about it is its present value. -/
theorem current_of_unbroken {calls : List ProviderCall} (h : s.Unbroken sink key calls) :
    (s.run sink calls).Current key := by
  rcases h with ⟨before, call, after, rfl, ⟨news, hmem, rfl⟩, hwatched⟩
  have hrun : ∀ more, s.run sink (before ++ call :: more) =
      ((s.run sink before).perform sink call).run sink more := fun more => List.foldl_append
  rw [hrun]
  refine (current_of_announced hmem).run fun more hmore => ?_
  rw [← hrun]
  exact hwatched more hmore

end Subscription

namespace Newswire

variable {w : Newswire} {sink : SinkId} {s : Subscription} {holds : Holding}

/-! ## Open sinks -/

theorem isOpen_deliver (w : Newswire) (result : MemoryProvider × List Delivery) (sink : SinkId) :
    (w.deliver result).channels.isOpen sink = w.channels.isOpen sink :=
  Channels.isOpen_foldl_send result.2 w.channels sink

/-- A sink is closed by its own receiver, and by nothing else. -/
theorem isOpen_perform_iff (call : ProviderCall) :
    (w.perform holds call).channels.isOpen sink = true ↔
      w.channels.isOpen sink = true ∧ call ≠ .close sink := by
  cases call with
  | set key value => simp [perform, isOpen_deliver]
  | unset key => simp [perform, isOpen_deliver]
  | subscribe other keys => simp [perform]
  | unsubscribe other keys => simp [perform]
  | read other =>
    have hread : (w.perform holds (.read other)).channels.isOpen sink =
        w.channels.isOpen sink := by
      simp only [perform, Channels.isOpen, Channels.drain, Channels.get_put, Channels.get_sink]
      split
      · next hsink => rw [hsink]
      · rfl
    simp [hread]
  | close other =>
    simp only [perform, Channels.isOpen, Channels.close, Channels.get_put]
    by_cases hsink : sink = other
    · simp [hsink]
    · simp [hsink, Ne.symm hsink]

/-- A sink that is open in the end was open all the time. -/
theorem isOpen_of_run {calls : List ProviderCall}
    (h : (w.run holds calls).channels.isOpen sink = true) : w.channels.isOpen sink = true := by
  induction calls generalizing w with
  | nil => exact h
  | cons call calls ih => exact ((isOpen_perform_iff call).1 (ih h)).1

/-- Who stays open does not depend on what the provider holds on to. -/
theorem isOpen_run_congr {v : Newswire} {others : Holding} {calls : List ProviderCall}
    (hsame : w.channels.isOpen sink = v.channels.isOpen sink)
    (h : (w.run holds calls).channels.isOpen sink = true) :
    (v.run others calls).channels.isOpen sink = true := by
  induction calls generalizing w v with
  | nil => exact hsame.symm.trans h
  | cons call calls ih =>
    refine ih ?_ h
    rw [Bool.eq_iff_iff, isOpen_perform_iff, isOpen_perform_iff, hsame]

/-! ## Service for one sink -/

/-- The sink has received what it is entitled to, and watches what it has asked for. -/
structure Serves (w : Newswire) (sink : SinkId) (s : Subscription) : Prop where
  merged : w.provider.Merged
  stored : ∀ key, w.provider.get? key = s.stored key
  watches_iff : ∀ key, w.provider.Watches sink key ↔ s.watched key = true
  received : w.received sink = s.messages

/-- Reading does not change what has been received. -/
theorem received_read (other : SinkId) :
    (w.perform holds (.read other)).received sink = w.received sink := by
  simp only [received, perform, Channels.drain, Channels.get_put, Channels.get_sink]
  by_cases hsink : sink = other
  · simp [hsink, List.filter_map, Function.comp_def]
  · simp [hsink, Ne.symm hsink, List.filter_map, Function.comp_def]

namespace Serves

theorem ofFacts (facts : List Fact) (sink : SinkId) :
    (Newswire.ofFacts facts).Serves sink (Subscription.ofFacts facts) where
  merged := List.nodup_nil
  stored _ := rfl
  watches_iff key := by
    simp [MemoryProvider.Watches, Newswire.ofFacts, MemoryProvider.ofFacts, Subscription.ofFacts]
  received := rfl

/-- A change of the store, with the news about it. -/
theorem notify (h : w.Serves sink s) (hopen : w.channels.isOpen sink = true)
    {isOpen : SinkId → Bool} (hheld : isOpen sink = true) (facts : Std.TreeMap FactKey FactValue)
    (news : FactUpdate) :
    (w.deliver (MemoryProvider.notify isOpen { w.provider with facts } news)).Serves sink
      { s with
        stored := fun key => facts[key]?
        messages := s.messages ++ if s.watched news.key then [news] else [] } := by
  have hmerged : MemoryProvider.Merged { w.provider with facts } := h.merged
  have hwatches : ∀ key, MemoryProvider.Watches { w.provider with facts } sink key ↔
      s.watched key = true := h.watches_iff
  constructor
  · exact hmerged.notify isOpen news
  · exact fun key => rfl
  · exact fun key => (MemoryProvider.watches_notify_iff hheld news).trans (hwatches key)
  · have hreceived := h.received
    unfold Newswire.received at hreceived ⊢
    rw [deliver, Channels.unread_foldl_send _ hopen, hmerged.notify_delivers hheld, ←
      List.append_assoc, hreceived]
    simp only [hwatches]

theorem set (h : w.Serves sink s) (hopen : w.channels.isOpen sink = true)
    (hholds : holds.KeepsOpen) (key : FactKey) (value : FactValue) :
    (w.perform holds (.set key value)).Serves sink (s.perform sink (.set key value)) := by
  have hstored : (fun other => (w.provider.facts.insert key value)[other]?) =
      s.storing (.set key value) := by
    funext other
    rw [getElem?_insert_eq, Subscription.storing, Function.update_apply, ← h.stored other]
    rfl
  have hserves := h.notify hopen (hholds _ _ hopen) (w.provider.facts.insert key value)
    ⟨key, some value⟩
  rw [hstored] at hserves
  exact hserves

theorem unset (h : w.Serves sink s) (hopen : w.channels.isOpen sink = true)
    (hholds : holds.KeepsOpen) (key : FactKey) :
    (w.perform holds (.unset key)).Serves sink (s.perform sink (.unset key)) := by
  cases hget : w.provider.get? key with
  | some value =>
    have hknown : s.stored key ≠ none := by
      rw [← h.stored, hget]
      exact Option.some_ne_none value
    have hstored : (fun other => (w.provider.facts.erase key)[other]?) =
        s.storing (.unset key) := by
      funext other
      rw [getElem?_erase_eq, Subscription.storing, Function.update_apply, ← h.stored other]
      rfl
    have hserves := h.notify hopen (hholds _ _ hopen) (w.provider.facts.erase key) ⟨key, none⟩
    rw [hstored] at hserves
    rw [Newswire.perform, MemoryProvider.unset_of_some hget]
    simpa only [Subscription.perform, Subscription.announced, Subscription.watching, hknown, ne_eq,
      not_false_eq_true, and_true] using hserves
  | none =>
    -- the fact is not stored, and nobody is told
    have hunknown : s.stored key = none := (h.stored key).symm.trans hget
    have hstored : Function.update s.stored key none = s.stored := by
      rw [← hunknown, Function.update_eq_self]
    have hannounced : s.announced (.unset key) = [] := if_neg fun hboth => hboth.2 hunknown
    rw [Subscription.perform_eq_self hannounced hstored rfl, Newswire.perform,
      MemoryProvider.unset_of_none hget]
    exact h

theorem subscribe (h : w.Serves sink s) (other : SinkId) (keys : List FactKey) :
    (w.perform holds (.subscribe other keys)).Serves sink
      (s.perform sink (.subscribe other keys)) where
  merged := h.merged.subscribe other keys
  stored := h.stored
  watches_iff key := by
    rw [perform, MemoryProvider.watches_subscribe_iff, h.watches_iff, or_comm]
    simp only [Subscription.perform, Subscription.watching, Bool.or_eq_true, decide_eq_true_eq]
  received := h.received.trans (List.append_nil _).symm

theorem unsubscribe (h : w.Serves sink s) (other : SinkId) (keys : List FactKey) :
    (w.perform holds (.unsubscribe other keys)).Serves sink
      (s.perform sink (.unsubscribe other keys)) where
  merged := h.merged.unsubscribe other keys
  stored := h.stored
  watches_iff key := by
    rw [perform, MemoryProvider.watches_unsubscribe_iff, h.watches_iff]
    simp only [Subscription.perform, Subscription.watching, Bool.and_eq_true, decide_eq_true_eq]
  received := h.received.trans (List.append_nil _).symm

/-- What receivers do does not concern other sinks. -/
theorem of_received (h : w.Serves sink s) {after : Newswire} (hprovider : after.provider = w.provider)
    (hreceived : after.received sink = w.received sink) : after.Serves sink s where
  merged := hprovider ▸ h.merged
  stored := hprovider ▸ h.stored
  watches_iff := hprovider ▸ h.watches_iff
  received := hreceived.trans h.received

theorem close (h : w.Serves sink s) {other : SinkId} (hne : other ≠ sink) :
    (w.perform holds (.close other)).Serves sink s := by
  refine h.of_received rfl ?_
  simp only [Newswire.received, perform, Channels.close, Channels.get_put, Ne.symm hne, if_false]

/-- Every call keeps up the service for an open sink. -/
theorem perform (h : w.Serves sink s) (hholds : holds.KeepsOpen) (call : ProviderCall)
    (hopen : (w.perform holds call).channels.isOpen sink = true) :
    (w.perform holds call).Serves sink (s.perform sink call) := by
  have hbefore := (isOpen_perform_iff call).1 hopen
  cases call with
  | set key value => exact h.set hbefore.1 hholds key value
  | unset key => exact h.unset hbefore.1 hholds key
  | subscribe other keys => exact h.subscribe other keys
  | unsubscribe other keys => exact h.unsubscribe other keys
  | read other =>
    rw [Subscription.perform_eq_self rfl rfl rfl]
    exact h.of_received rfl (received_read other)
  | close other =>
    rw [Subscription.perform_eq_self rfl rfl rfl]
    exact h.close fun heq => hbefore.2 (heq ▸ rfl)

theorem run (h : w.Serves sink s) (hholds : holds.KeepsOpen) {calls : List ProviderCall}
    (hopen : (w.run holds calls).channels.isOpen sink = true) :
    (w.run holds calls).Serves sink (s.run sink calls) := by
  induction calls generalizing w s with
  | nil => exact h
  | cons call calls ih => exact ih (h.perform hholds call (isOpen_of_run hopen)) hopen

end Serves

/-- What an open sink has received is one message for each change of a fact that it was watching, in
order, and it watches what it has asked for.  The last message about a fact that it has watched since
is the present value.  None of this depends on which closed sinks are given up, and when. -/
theorem delivers_exactly (facts : List Fact) (calls : List ProviderCall) (sink : SinkId)
    (hopen : ((ofFacts facts).run Channels.isOpen calls).channels.isOpen sink = true) :
    let w := (ofFacts facts).run Channels.isOpen calls
    let s := (Subscription.ofFacts facts).run sink calls
    w.received sink = s.messages ∧
      (∀ key, w.provider.get? key = s.stored key ∧
        (w.provider.Watches sink key ↔ s.watched key = true)) ∧
      (∀ key, (Subscription.ofFacts facts).Unbroken sink key calls →
        ((w.received sink).filter fun news => news.key = key).getLast? =
          some ⟨key, w.provider.get? key⟩) ∧
      ∀ holds : Holding, holds.KeepsOpen →
        ((ofFacts facts).run holds calls).received sink = w.received sink ∧
          ∀ key, ((ofFacts facts).run holds calls).provider.Watches sink key ↔
            w.provider.Watches sink key := by
  intro w s
  have hholds : Holding.KeepsOpen Channels.isOpen := fun _ _ h => h
  have hserves : w.Serves sink s := (Serves.ofFacts facts sink).run hholds hopen
  refine ⟨hserves.received, fun key => ⟨hserves.stored key, hserves.watches_iff key⟩, ?_, ?_⟩
  · intro key hunbroken
    rw [hserves.received, hserves.stored]
    exact Subscription.current_of_unbroken hunbroken
  · intro holds hholds
    have hother := (Serves.ofFacts facts sink).run hholds (isOpen_run_congr rfl hopen)
    exact ⟨hother.received.trans hserves.received.symm,
      fun key => (hother.watches_iff key).trans (hserves.watches_iff key).symm⟩

/-- A permission that is asked for. -/
def target (name : String) : FactKey :=
  .permissionExists ⟨name⟩

/-- Two receivers, one of which goes away after the first change. -/
def twoReceivers : List ProviderCall :=
  [.subscribe ⟨"a"⟩ [target "x"], .subscribe ⟨"b"⟩ [target "x", target "y"],
    .set (target "x") (.bool true), .read ⟨"a"⟩, .close ⟨"b"⟩, .set (target "y") (.bool true),
    .unset (target "x"), .unset (target "x"), .set (target "x") (.bool false)]

theorem unbroken_twoReceivers :
    (Subscription.ofFacts []).Unbroken ⟨"a"⟩ (target "x") twoReceivers := by
  refine ⟨twoReceivers.take 2, .set (target "x") (.bool true), twoReceivers.drop 3, rfl,
    ⟨⟨target "x", some (.bool true)⟩, by decide +kernel, rfl⟩, ?_⟩
  have hall : ∀ more ∈ (twoReceivers.drop 3).inits, ((Subscription.ofFacts []).run ⟨"a"⟩
      (twoReceivers.take 2 ++ .set (target "x") (.bool true) :: more)).watched (target "x") =
        true := by
    decide +kernel
  exact fun more hmore => hall more ((List.mem_inits more _).2 hmore)

/-- The other receiver has all news about what it watches, once each, and would have the same if the
provider never gave up a sink. -/
theorem delivers_exactly_twoReceivers :
    let w := (ofFacts []).run Channels.isOpen twoReceivers
    let v := (ofFacts []).run (fun _ _ => true) twoReceivers
    w.channels.isOpen ⟨"a"⟩ = true ∧
      w.received ⟨"a"⟩ = [⟨target "x", some (.bool true)⟩, ⟨target "x", none⟩,
        ⟨target "x", some (.bool false)⟩] ∧
      w.provider.get? (target "x") = some (.bool false) ∧
      ((w.received ⟨"a"⟩).filter fun news => news.key = target "x").getLast? =
        some ⟨target "x", w.provider.get? (target "x")⟩ ∧
      v.received ⟨"a"⟩ = w.received ⟨"a"⟩ ∧
      w.provider.watchers.length = 1 ∧ v.provider.watchers.length = 2 := by
  intro w v
  have hopen : w.channels.isOpen ⟨"a"⟩ = true := by decide +kernel
  rcases delivers_exactly [] twoReceivers ⟨"a"⟩ hopen with ⟨hreceived, hstate, hlast, hothers⟩
  refine ⟨hopen, hreceived.trans (by decide +kernel), ((hstate (target "x")).1).trans
    (by decide +kernel), hlast (target "x") unbroken_twoReceivers, ?_, by decide +kernel,
    by decide +kernel⟩
  exact (hothers (fun _ _ => true) fun _ _ _ => rfl).1

end Newswire

end Mandate
