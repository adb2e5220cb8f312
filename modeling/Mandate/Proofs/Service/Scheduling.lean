import Mandate.Proofs.Provider.Watching
import Mandate.Proofs.Service.Convergence

/-!
# The timeline among the interleavings

The timeline takes the actions that are possible in an order of its own.  As long as its provider
does what it is asked to, every action is made of steps of a world, so what holds of all
interleavings holds of the timeline.

Main results:

- Definition `Timeline.Lasts`, theorem `Timeline.Lasts.advance`: what every action preserves still
  holds when time has passed.
- Definition `Timeline.Shows`: the timeline and a world are in the same state.
- Theorem `Timeline.Arises.perform`: an action of the timeline is made of steps of a world.
- Theorem `Timeline.arises_of_uses`: so is everything that is done with a timeline.
- Theorem `Timeline.Arises.agree`: the agreement on subscriptions, for the timeline.
-/

namespace Mandate

/-! ## Providers that do what they are asked to -/

/-- Subscriptions are taken, and their ends. -/
def PushMode.Agrees : PushMode → Prop
  | .direct => True
  | .ignored => False
  | .failing subscribe unsubscribe => subscribe = false ∧ unsubscribe = false

namespace Provider

/-- The provider takes subscriptions and their ends. -/
def Agrees : Provider → Prop
  | memory _ => True
  | scripted mode _ => mode.Agrees

/-- The provider pushes the changes of the fact to the sink. -/
def Pushes (p : Provider) (sink : SinkId) (key : FactKey) : Prop :=
  match p with
  | memory p => ∃ w ∈ p.watchers, w.sink = sink ∧ key ∈ w.keys
  | scripted _ p => key ∈ p.subscribed

/-- Nothing about the subscriptions has changed. -/
structure Keeps (p q : Provider) : Prop where
  agrees : p.Agrees → q.Agrees
  pushes : ∀ sink key, q.Pushes sink key ↔ p.Pushes sink key

theorem Keeps.refl (p : Provider) : p.Keeps p :=
  ⟨fun h => h, fun _ _ => Iff.rfl⟩

section Facts

variable (p : Provider)

theorem keeps_beginFetch (key : FactKey) : p.Keeps (p.beginFetch key).1 := by
  cases p <;> exact ⟨fun h => h, fun _ _ => Iff.rfl⟩

theorem keeps_push (news : FactUpdate) : p.Keeps (p.push news).1 := by
  cases p <;> exact ⟨fun h => h, fun _ _ => Iff.rfl⟩

/-- As long as every receiver is there, nobody is forgotten. -/
theorem watchers_update (m : MemoryProvider) (news : FactUpdate) :
    (m.update (fun _ => true) news).1.watchers = m.watchers := by
  have hall : m.watchers.filter (fun _ => true) = m.watchers := List.filter_true m.watchers
  unfold MemoryProvider.update
  split
  · exact hall
  · unfold MemoryProvider.unset
    split
    · exact hall
    · rfl

theorem keeps_update (news : FactUpdate) : p.Keeps (p.update news).1 := by
  cases p with
  | memory m =>
    refine ⟨fun h => h, fun sink key => ?_⟩
    simp only [update, Pushes, watchers_update]
  | scripted mode p => exact ⟨fun h => h, fun _ _ => Iff.rfl⟩

end Facts

section Subscriptions

variable {p : Provider} {sink : SinkId} {keys : List FactKey}

theorem keeps_beginUnsubscribe (p : Provider) : p.Keeps p.beginUnsubscribe.1 := by
  unfold beginUnsubscribe
  split <;> exact ⟨fun h => h, fun _ _ => Iff.rfl⟩

/-- The end of a subscription is not refused. -/
theorem isSome_beginUnsubscribe (h : p.Agrees) : p.beginUnsubscribe.2.isSome = true := by
  unfold beginUnsubscribe
  split
  · rfl
  · rfl
  · cases h.2
  · rfl

/-- A subscription is taken. -/
theorem subscribe_of_agrees (h : p.Agrees) (sink : SinkId) (keys : List FactKey) :
    (p.subscribe sink keys).2 = true ∧ (p.subscribe sink keys).1.Agrees ∧
      ∀ key, (p.subscribe sink keys).1.Pushes sink key ↔ key ∈ keys ∨ p.Pushes sink key := by
  unfold subscribe
  split
  · exact ⟨rfl, h, fun key =>
      MemoryProvider.watches_subscribe_iff.trans (or_congr_left (and_iff_right rfl))⟩
  · exact ⟨rfl, h, fun key => mem_foldl_insert⟩
  · exact h.elim
  · cases h.1
  · exact ⟨rfl, h, fun key => mem_foldl_insert⟩

/-- A subscription ends. -/
theorem endUnsubscribe_of_agrees (h : p.Agrees) (sink : SinkId) (keys : List FactKey) :
    (p.endUnsubscribe sink keys).Agrees ∧
      ∀ key, (p.endUnsubscribe sink keys).Pushes sink key ↔ p.Pushes sink key ∧ key ∉ keys := by
  unfold endUnsubscribe
  split
  · exact ⟨h, fun key =>
      MemoryProvider.watches_unsubscribe_iff.trans
        (and_congr_right fun _ => not_congr (and_iff_right rfl))⟩
  · exact h.elim
  · exact ⟨h, fun key => mem_foldl_erase⟩

end Subscriptions

end Provider

/-- The answer to a fetch at most adds to the reports. -/
theorem Service.exists_resolve (s : Service) (key : FactKey) (answer : Fetched) :
    ∃ journal, (s.resolve key answer).1 = { s with journal } := by
  unfold resolve
  split <;> exact ⟨_, rfl⟩

namespace Timeline

/-! ## The state of a timeline -/

/-- The timeline and the world are in the same state.  The world also knows the calls that have been
collected. -/
structure Shows (t : Timeline) (w : World) : Prop where
  service : w.service = t.service
  agrees : t.provider.Agrees
  provider : ∀ key, key ∈ w.provider ↔ t.provider.Pushes sink key
  calls : ∀ c ∈ t.calls, w.calls c.id = some c.stage
  collected : ∀ id stage, w.calls id = some stage → (∃ c ∈ t.calls, c.id = id) ∨
    stage.isInLine = true
  fresh : ∀ id, w.calls id ≠ none → id.number < t.callCount
  /-- What the provider has been asked to end it is going to end. -/
  wakes : ∀ c ∈ t.calls, ∀ keys wanted reply, c.stage = .unsubscribing keys wanted reply →
    c.wake.isSome = true

section Shows

variable {t after : Timeline} {w : World}

theorem mem_setCall {c call : Call} :
    c ∈ (t.setCall call).calls ↔ c = call ∨ (c ∈ t.calls ∧ c.id ≠ call.id) := by
  unfold setCall
  dsimp only
  split
  · rename_i hany
    rcases List.any_eq_true.1 hany with ⟨old, hold, hsame⟩
    rw [List.mem_map]
    constructor
    · rintro ⟨c', hc', rfl⟩
      split
      · exact Or.inl rfl
      · rename_i hne
        exact Or.inr ⟨hc', hne⟩
    · rintro (rfl | ⟨hc, hne⟩)
      · exact ⟨old, hold, if_pos (of_decide_eq_true hsame)⟩
      · exact ⟨c, hc, if_neg hne⟩
  · rename_i hnone
    have hne : c ∈ t.calls → c.id ≠ call.id := fun hc hsame =>
      hnone (List.any_eq_true.2 ⟨c, hc, decide_eq_true hsame⟩)
    rw [List.mem_append, List.mem_singleton]
    constructor
    · exact fun h => h.elim (fun hc => Or.inr ⟨hc, hne hc⟩) Or.inl
    · exact fun h => h.elim Or.inr (fun hc => Or.inl hc.1)

/-- Whatever a call waits for, it is placed among the calls of the timeline. -/
theorem exists_place (t : Timeline) (id : CallId) (next : Service × Stage) :
    ∃ call : Call, call.id = id ∧ call.stage = next.2 ∧
      (t.place id next).service = next.1 ∧ t.provider.Keeps (t.place id next).provider ∧
      (t.place id next).calls = (t.setCall call).calls ∧
      (t.place id next).callCount = t.callCount ∧
      (t.provider.Agrees → ∀ keys wanted reply, call.stage = .unsubscribing keys wanted reply →
        call.wake.isSome = true) := by
  rcases next with ⟨service, stage⟩
  cases stage with
  | unsubscribing keys wanted reply =>
    refine ⟨⟨id, _, t.provider.beginUnsubscribe.2.map (t.now + ·)⟩, rfl, rfl, rfl,
      t.provider.keeps_beginUnsubscribe, rfl, rfl, fun hagrees _ _ _ _ => ?_⟩
    rw [Option.isSome_map]
    exact Provider.isSome_beginUnsubscribe hagrees
  | _ => exact ⟨⟨id, _, none⟩, rfl, rfl, rfl, .refl _, rfl, rfl, fun _ _ _ _ => nofun⟩

namespace Shows

/-- What happens to time, to fetches and to unread news does not show in the world. -/
theorem of_same (h : t.Shows w) (hservice : after.service = t.service)
    (hprovider : t.provider.Keeps after.provider) (hcalls : after.calls = t.calls)
    (hcount : after.callCount = t.callCount) : after.Shows w where
  service := by rw [hservice, h.service]
  agrees := hprovider.agrees h.agrees
  provider key := by rw [hprovider.pushes, h.provider]
  calls := by rw [hcalls]; exact h.calls
  collected := by rw [hcalls]; exact h.collected
  fresh := by rw [hcount]; exact h.fresh
  wakes := by rw [hcalls]; exact h.wakes

theorem serving (h : t.Shows w) (s : Service) :
    { t with service := s }.Shows { w with service := s } :=
  { h with service := rfl }

theorem providing (h : t.Shows w) {p : Provider} {provider : Std.TreeSet FactKey}
    (hagrees : p.Agrees) (hprovider : ∀ key, key ∈ provider ↔ p.Pushes sink key) :
    { t with provider := p }.Shows { w with provider } :=
  { h with agrees := hagrees, provider := hprovider }

/-- A call goes on, in the timeline and in the world. -/
theorem place (h : t.Shows w) {id : CallId} (hid : id.number < t.callCount)
    (next : Service × Stage) : (t.place id next).Shows (w.goOn id next) := by
  rcases t.exists_place id next with
    ⟨call, rfl, hstage, hservice, hprovider, hcalls, hcount, hwakes⟩
  constructor
  · exact hservice.symm
  · exact hprovider.agrees h.agrees
  · exact fun key => (h.provider key).trans (hprovider.pushes sink key).symm
  · intro c hc
    rw [hcalls, mem_setCall] at hc
    rw [World.calls_goOn]
    rcases hc with rfl | ⟨hc, hne⟩
    · rw [if_pos rfl, hstage]
    · rw [if_neg hne, h.calls c hc]
  · intro id stage hid
    rw [hcalls]
    rw [World.calls_goOn] at hid
    split at hid
    · rename_i hsame
      exact Or.inl ⟨call, mem_setCall.2 (Or.inl rfl), hsame.symm⟩
    · rename_i hne
      rcases h.collected id stage hid with ⟨c, hc, rfl⟩ | hline
      · exact Or.inl ⟨c, mem_setCall.2 (Or.inr ⟨hc, hne⟩), rfl⟩
      · exact Or.inr hline
  · intro other hother
    rw [hcount]
    rw [World.calls_goOn] at hother
    split at hother
    · rename_i hsame
      rwa [hsame]
    · exact h.fresh other hother
  · intro c hc
    rw [hcalls, mem_setCall] at hc
    rcases hc with rfl | ⟨hc, -⟩
    · exact hwakes h.agrees
    · exact h.wakes c hc

theorem number_lt (h : t.Shows w) {c : Call} (hc : c ∈ t.calls) : c.id.number < t.callCount :=
  h.fresh c.id (by rw [h.calls c hc]; exact Option.some_ne_none _)

end Shows

end Shows

/-! ## Actions -/

/-- The call that an action belongs to is where it has to be for that. -/
def Possible (t : Timeline) : Action → Prop
  | .enterGate id keys reply =>
    t.service.gateTaken = false ∧ ∃ c ∈ t.calls, c.id = id ∧ c.stage = .gate keys reply
  | .unsubscribe c keys wanted reply =>
    c ∈ t.calls ∧ c.stage = .unsubscribing keys wanted reply
  | .subscribe id keys reply => ∃ c ∈ t.calls, c.id = id ∧ c.stage = .subscribing keys reply
  | .endPull id plan retries reply =>
    ∃ c ∈ t.calls, c.id = id ∧ c.stage = .pulling plan retries reply
  | .endFetch _ _ _ | .startFetch _ _ | .listen => True

section Possible

variable {t : Timeline} {a : Action}

theorem mem_of_call? {id : CallId} {c : Call} (h : t.call? id = some c) :
    c ∈ t.calls ∧ c.id = id := by
  have hsame := List.find?_some h
  exact ⟨List.mem_of_find?_eq_some h, of_decide_eq_true hsame⟩

theorem exists_of_outcome? {id : CallId} {outcome : Outcome} (h : t.outcome? id = some outcome) :
    ∃ c ∈ t.calls, c.id = id ∧ c.stage = .done outcome := by
  unfold outcome? at h
  split at h
  · rename_i result hcall
    rcases Option.map_eq_some_iff.1 hcall with ⟨c, hc, hstage⟩
    cases h
    exact ⟨c, (mem_of_call? hc).1, (mem_of_call? hc).2, hstage⟩
  · cases h

theorem possible_of_nextAtGate? (h : t.nextAtGate? = some a) : t.Possible a := by
  unfold nextAtGate? at h
  split at h
  · rename_i id waiting hopen hqueue
    split at h
    · rename_i keys reply hcall
      rcases Option.map_eq_some_iff.1 hcall with ⟨c, hc, hstage⟩
      cases h
      exact ⟨hopen, c, (mem_of_call? hc).1, (mem_of_call? hc).2, hstage⟩
    · cases h
  · cases h

theorem possible_of_nextOfCall? {c : Call} (hc : c ∈ t.calls) (h : t.nextOfCall? c = some a) :
    t.Possible a := by
  unfold nextOfCall? at h
  split at h
  · rename_i hstage
    split at h
    · cases h
      exact ⟨hc, hstage⟩
    · cases h
  · rename_i hstage
    cases h
    exact ⟨c, hc, rfl, hstage⟩
  · rename_i hstage
    split at h
    · cases h
      exact ⟨c, hc, rfl, hstage⟩
    · cases h
  · cases h

theorem possible_of_nextOfFetch? {free : Bool} {f : Fetch} {index : Nat}
    (h : t.nextOfFetch? free f index = some a) : t.Possible a := by
  unfold nextOfFetch? at h
  split at h
  · split at h
    · cases h
      exact trivial
    · split at h
      · cases h
        exact trivial
      · cases h
  · split at h
    · cases h
      exact trivial
    · cases h
  · cases h

theorem possible_of_nextFetch? (h : t.nextFetch? = some a) : t.Possible a := by
  unfold nextFetch? at h
  dsimp only at h
  rcases Option.or_eq_some_iff.1 h with hfetch | ⟨-, hfetch⟩
  all_goals
    rcases List.exists_of_findSome?_eq_some hfetch with ⟨⟨f, index⟩, -, hnext⟩
    exact possible_of_nextOfFetch? hnext

/-- What happens next is possible. -/
theorem possible_of_next? (h : t.next? = some a) : t.Possible a := by
  unfold next? at h
  rcases Option.or_eq_some_iff.1 h with hgate | ⟨-, h⟩
  · exact possible_of_nextAtGate? hgate
  rcases Option.or_eq_some_iff.1 h with hfetch | ⟨-, h⟩
  · exact possible_of_nextFetch? hfetch
  rcases Option.or_eq_some_iff.1 h with hcall | ⟨-, hnews⟩
  · rcases List.exists_of_findSome?_eq_some hcall with ⟨c, hc, hnext⟩
    exact possible_of_nextOfCall? hc hnext
  · unfold nextNews? at hnews
    split at hnews
    · cases hnews
      exact trivial
    · cases hnews

end Possible

/-- Neither an action ends the property, nor does the passing of time. -/
structure Lasts (P : Timeline → Prop) : Prop where
  perform {t : Timeline} {a : Action} (h : P t) (ha : t.Possible a) : P (t.perform a)
  later {t : Timeline} (h : P t) (now : Moment) : P { t with now }

namespace Lasts

variable {P : Timeline → Prop} {t : Timeline}

theorem settleFor (hlasts : Lasts P) (count : Nat) (h : P t) : P (settleFor count t) := by
  induction count generalizing t with
  | zero => exact h
  | succ count ih =>
    unfold Timeline.settleFor
    split
    · rename_i a hnext
      exact ih (hlasts.perform h (possible_of_next? hnext))
    · exact h

theorem settle (hlasts : Lasts P) (h : P t) : P t.settle :=
  hlasts.settleFor t.budget h

theorem advance (hlasts : Lasts P) (stop : Timeline → Bool) (end? : Option Moment) (count : Nat)
    (h : P t) : P (t.advance stop end? count) := by
  induction count generalizing t with
  | zero => exact hlasts.settle h
  | succ count ih =>
    have hsettled := hlasts.settle h
    unfold Timeline.advance
    dsimp only
    split
    · exact hsettled
    · split
      · exact ih (hlasts.later hsettled _)
      · split
        · exact ih (hlasts.later hsettled _)
        · exact hlasts.later hsettled _
      · exact hlasts.later hsettled _
      · exact hsettled

/-- The provider changes, and what it pushes waits to be read. -/
theorem feed (hlasts : Lasts P) {f : Provider → FactUpdate → Provider × List Delivery}
    (hf : ∀ {t : Timeline} (news : FactUpdate) (inbox : List FactUpdate), P t →
      P { t with provider := (f t.provider news).1, inbox })
    (h : P t) (news : List FactUpdate) : P (t.feed f news) := by
  refine hlasts.settle ?_
  induction news generalizing t with
  | nil => exact h
  | cons first news ih => exact ih (hf first _ h)

end Lasts

/-- Some interleaving leads to the state of the timeline. -/
def Arises (config : EngineConfig) (t : Timeline) : Prop :=
  ∃ w, (World.start config).Reaches w ∧ t.Shows w

namespace Arises

variable {config : EngineConfig} {t after : Timeline}

/-- What happens to time, to fetches and to unread news leaves the interleaving as it is. -/
theorem of_same (h : t.Arises config) (hservice : after.service = t.service)
    (hprovider : t.provider.Keeps after.provider) (hcalls : after.calls = t.calls)
    (hcount : after.callCount = t.callCount) : after.Arises config := by
  rcases h with ⟨w, hreaches, hshows⟩
  exact ⟨w, hreaches, hshows.of_same hservice hprovider hcalls hcount⟩

/-- Fetches that fail are reported, and reports are read. -/
theorem reporting (h : t.Arises config) (journal : List Event) :
    { t with service := { t.service with journal } }.Arises config := by
  rcases h with ⟨w, hreaches, hshows⟩
  have hnext := hshows.serving { t.service with journal }
  rw [← hshows.service] at hnext ⊢
  exact ⟨_, hreaches.tail (.reported journal), hnext⟩

/-- News are applied. -/
theorem pushing (h : t.Arises config) (news : List FactUpdate) (now : Occasion) :
    { t with service := (t.service.updateFacts news now).1 }.Arises config := by
  rcases h with ⟨w, hreaches, hshows⟩
  have hnext := hshows.serving (t.service.updateFacts news now).1
  rw [← hshows.service] at hnext ⊢
  exact ⟨_, hreaches.tail (.pushed news now), hnext⟩

/-- A call goes on, in a timeline whose time, fetches and unread news may be others by now. -/
theorem place (h : t.Arises config) {c : Call} (hc : c ∈ t.calls) {next : Service × Stage}
    (hstep : ∀ w : World, w.service = t.service → w.calls c.id = some c.stage →
      w.Step (w.goOn c.id next))
    (hservice : after.service = t.service) (hprovider : after.provider = t.provider)
    (hcalls : after.calls = t.calls) (hcount : after.callCount = t.callCount) :
    (after.place c.id next).Arises config := by
  rcases h with ⟨w, hreaches, hshows⟩
  have hafter := hshows.of_same hservice (hprovider ▸ .refl _) hcalls hcount
  have hid : c.id.number < after.callCount := hcount ▸ hshows.number_lt hc
  exact ⟨_, hreaches.tail (hstep w hshows.service (hshows.calls c hc)), hafter.place hid next⟩

theorem unsubscribe (h : t.Arises config) {c : Call} (hc : c ∈ t.calls)
    {keys wanted : List FactKey} {reply : Reply}
    (hstage : c.stage = .unsubscribing keys wanted reply) :
    (t.perform (.unsubscribe c keys wanted reply)).Arises config := by
  rcases h with ⟨w, hreaches, hshows⟩
  have hid := hshows.calls c hc
  rw [hstage] at hid
  have htaken : w.service.gateTaken = true :=
    (World.ordered_of_reaches hreaches).gateTaken.2 ⟨c.id, _, hid, rfl⟩
  have hsettles := World.settles_unsubscribed htaken hid
  rw [hshows.service] at hsettles
  rcases Provider.endUnsubscribe_of_agrees hshows.agrees sink keys with ⟨hagrees, hpushes⟩
  have hended : Shows _ { w with provider := keys.foldl .erase w.provider } :=
    hshows.providing hagrees fun key => by rw [mem_foldl_erase, hshows.provider, hpushes]
  refine ⟨_, hreaches.trans hsettles.reaches, ?_⟩
  simp only [Timeline.perform, hshows.wakes c hc keys wanted reply hstage, if_true]
  exact hended.place (hshows.number_lt hc) _

theorem subscribe (h : t.Arises config) {c : Call} (hc : c ∈ t.calls)
    {keys : List FactKey} {reply : Reply} (hstage : c.stage = .subscribing keys reply) :
    (t.perform (.subscribe c.id keys reply)).Arises config := by
  rcases h with ⟨w, hreaches, hshows⟩
  have hid := hshows.calls c hc
  rw [hstage] at hid
  have hsettles := World.settles_resubscribed hid
  rw [hshows.service] at hsettles
  rcases Provider.subscribe_of_agrees hshows.agrees sink keys with ⟨htaken, hagrees, hpushes⟩
  have hbegun : Shows _ { w with provider := keys.foldl .insert w.provider } :=
    hshows.providing hagrees fun key => by rw [mem_foldl_insert, hshows.provider, hpushes]
  refine ⟨_, hreaches.trans hsettles.reaches, ?_⟩
  simp only [Timeline.perform, htaken]
  exact hbegun.place (hshows.number_lt hc) _

/-- An action of the timeline is made of steps of a world. -/
theorem perform (h : t.Arises config) {a : Action} (ha : t.Possible a) :
    (t.perform a).Arises config := by
  cases a with
  | enterGate id keys reply =>
    rcases ha with ⟨hopen, c, hc, rfl, hstage⟩
    refine h.place hc (fun w hservice hid => ?_) rfl rfl rfl rfl
    rw [hstage] at hid
    rw [← hservice] at hopen ⊢
    exact .enterGate hid hopen
  | unsubscribe c keys wanted reply => exact h.unsubscribe ha.1 ha.2
  | subscribe id keys reply =>
    rcases ha with ⟨c, hc, rfl, hstage⟩
    exact h.subscribe hc hstage
  | endPull id plan retries reply =>
    rcases ha with ⟨c, hc, rfl, hstage⟩
    refine h.place hc (fun w hservice hid => ?_) rfl rfl rfl rfl
    rw [hstage] at hid
    rw [← hservice]
    exact .fetched hid _ t.now
  | endFetch index key answered =>
    rcases t.service.exists_resolve key (t.fetchResult key answered) with ⟨journal, hjournal⟩
    exact (h.reporting journal).of_same hjournal (.refl _) rfl rfl
  | startFetch index key => exact h.of_same rfl (t.provider.keeps_beginFetch key) rfl rfl
  | listen => exact (h.pushing t.inbox t.now).of_same rfl (.refl _) rfl rfl

/-- Actions and the passing of time lead to states to which interleavings lead. -/
theorem lasts (config : EngineConfig) : Lasts (Arises config) where
  perform h ha := h.perform ha
  later h _ := h.of_same rfl (.refl _) rfl rfl

/-! ## Whatever is done with a timeline -/

/-- A call begins. -/
theorem begin (h : t.Arises config) (request : Request) : (t.begin request).1.Arises config := by
  unfold Timeline.begin
  refine (lasts config).settle ?_
  rcases h with ⟨w, hreaches, hshows⟩
  have hfree : w.calls ⟨t.callCount⟩ = none := by
    by_contra hthere
    exact Nat.lt_irrefl _ (hshows.fresh _ hthere)
  have hcounted : { t with callCount := t.callCount + 1 }.Shows w :=
    { hshows with fresh := fun id hid => Nat.lt_succ_of_lt (hshows.fresh id hid) }
  have hstep := World.Step.begin hfree request
  rw [hshows.service] at hstep
  exact ⟨_, hreaches.tail hstep, hcounted.place (Nat.lt_succ_self _) _⟩

/-- A call that has ended is collected. -/
theorem join (h : t.Arises config) (id : CallId) (hdone : (t.join id).2.isSome = true) :
    (t.join id).1.Arises config := by
  unfold Timeline.join at hdone ⊢
  dsimp only at hdone ⊢
  have hend := (lasts config).advance (fun t => (t.outcome? id).isSome) none (t.budget + 1) h
  generalize t.advance (fun t => (t.outcome? id).isSome) none (t.budget + 1) = t at hdone hend ⊢
  rcases hend with ⟨w, hreaches, hshows⟩
  refine ⟨w, hreaches, { hshows with calls := ?_, collected := ?_, wakes := ?_ }⟩
  · exact fun c hc => hshows.calls c (List.mem_of_mem_filter hc)
  · intro other stage hother
    rcases hshows.collected other stage hother with ⟨c, hc, rfl⟩ | hline
    · by_cases hsame : c.id = id
      · -- the call that is collected has ended
        rcases Option.isSome_iff_exists.1 hdone with ⟨outcome, houtcome⟩
        rcases exists_of_outcome? houtcome with ⟨c', hc', hsame', hstage⟩
        have hthere := hshows.calls c' hc'
        rw [hsame', ← hsame, hother, hstage, Option.some.injEq] at hthere
        exact Or.inr (hthere ▸ rfl)
      · exact Or.inl ⟨c, List.mem_filter.2 ⟨hc, decide_eq_true hsame⟩, rfl⟩
    · exact Or.inr hline
  · exact fun c hc => hshows.wakes c (List.mem_of_mem_filter hc)

theorem updateFacts (h : t.Arises config) (news : List FactUpdate) :
    (t.updateFacts news).1.Arises config :=
  (lasts config).settle (h.pushing news t.now)

/-- The provider changes. -/
theorem feed {f : Provider → FactUpdate → Provider × List Delivery}
    (hf : ∀ (p : Provider) news, p.Keeps (f p news).1) (h : t.Arises config)
    (news : List FactUpdate) : (t.feed f news).Arises config :=
  (lasts config).feed (fun {t} first _ ht => ht.of_same rfl (hf t.provider first) rfl rfl) h news

/-- When all calls of a timeline are in line, its provider, its service and the network agree on
what is subscribed. -/
theorem agree (h : t.Arises config) (hline : ∀ c ∈ t.calls, c.stage.isInLine = true)
    (key : FactKey) : (t.provider.Pushes sink key ↔ key ∈ t.service.subscribed) ∧
      (key ∈ t.service.subscribed ↔ key ∈ t.service.engine.network.subscriptions) := by
  rcases h with ⟨w, hreaches, hshows⟩
  have hall : ∀ id stage, w.calls id = some stage → stage.isInLine = true := by
    intro id stage hid
    rcases hshows.collected id stage hid with ⟨c, hc, rfl⟩ | hend
    · rw [hshows.calls c hc, Option.some.injEq] at hid
      exact hid ▸ hline c hc
    · exact hend
  have hagree := (World.ordered_of_reaches hreaches).agree hall key
  rw [hshows.provider, World.Follows, hshows.service] at hagree
  rwa [Network.mem_subscriptions_iff]

end Arises

/-- What may be done with a timeline.  Its provider may change as long as it goes on to take
subscriptions. -/
inductive Use (t : Timeline) : Timeline → Prop
  | begin (request : Request) : Use t (t.begin request).1
  /-- A call that has ended is collected. -/
  | join (id : CallId) (hdone : (t.join id).2.isSome = true) : Use t (t.join id).1
  | sleep (milliseconds : Nat) : Use t (t.sleep milliseconds)
  | updateFacts (news : List FactUpdate) : Use t (t.updateFacts news).1
  | update (news : List FactUpdate) : Use t (t.feed Provider.update news)
  | push (news : List FactUpdate) : Use t (t.feed Provider.push news)
  | startListening : Use t t.startListening.1
  | transitions : Use t t.transitions.1
  | takeJournal : Use t t.takeJournal.1
  | script {provider : Provider} (h : t.provider.Keeps provider) : Use t { t with provider }

theorem Arises.of_use {config : EngineConfig} {t after : Timeline} (h : t.Arises config)
    (huse : t.Use after) : after.Arises config := by
  cases huse with
  | begin request => exact h.begin request
  | join id hdone => exact h.join id hdone
  | sleep milliseconds => exact (lasts config).advance _ _ _ h
  | updateFacts news => exact h.updateFacts news
  | update news => exact h.feed Provider.keeps_update news
  | push news => exact h.feed Provider.keeps_push news
  | startListening =>
    have hlistening : { t with listening := true }.Arises config :=
      h.of_same rfl (.refl _) rfl rfl
    exact (lasts config).settle hlistening
  | transitions => exact h.of_same rfl (.refl _) rfl rfl
  | takeJournal => exact h.reporting []
  | script hkeeps => exact h.of_same rfl hkeeps rfl rfl

/-- In the beginning nothing has been called and nothing is subscribed. -/
theorem shows_start (config : EngineConfig) {provider : Provider} (listening : Bool)
    (hagrees : provider.Agrees) (hnone : ∀ key, ¬ provider.Pushes sink key) :
    Shows { service := .ofConfig config, provider, listening } (World.start config) where
  service := rfl
  agrees := hagrees
  provider key := iff_of_false Std.TreeSet.not_mem_emptyc (hnone key)
  calls _ hc := (List.not_mem_nil hc).elim
  collected _ _ hid := by cases hid
  fresh _ hid := (hid rfl).elim
  wakes _ hc := (List.not_mem_nil hc).elim

/-- Whatever is done with a timeline whose provider takes subscriptions, some interleaving leads to
its state. -/
theorem arises_of_uses {config : EngineConfig} {provider : Provider} {listening : Bool}
    {t : Timeline} (hagrees : provider.Agrees) (hnone : ∀ key, ¬ provider.Pushes sink key)
    (h : Relation.ReflTransGen Use { service := .ofConfig config, provider, listening } t) :
    t.Arises config := by
  induction h with
  | refl => exact ⟨_, .refl, shows_start config listening hagrees hnone⟩
  | tail _ huse ih => exact ih.of_use huse

end Timeline
end Mandate
