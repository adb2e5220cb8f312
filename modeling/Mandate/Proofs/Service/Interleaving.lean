import Mathlib.Logic.Function.Basic
import Mathlib.Logic.Relation
import Mandate.Proofs.Service.Stages
import Mandate.Service.Timeline

/-!
# Calls side by side

Any number of calls run side by side.  They take their steps in any order: any call may enter the
gate when it is open, and the provider ends and begins single subscriptions at any moment while a
call waits for it.  What the provider is asked for it does in the end, and no call is given up.

A step happens outside the gate, behind it, or at the provider.  Every step keeps the calls in
order: one of them at most is behind the gate, and a fact that no call at the gate waits for is
going to be subscribed when the gate opens if and only if the network follows it.

Main results:

- Definitions `World`, `World.Step`: the service, its provider and the calls, and what can happen.
- Definition `World.Ordered`, theorem `World.Step.effect`: the invariant, and what a step does.
- Theorem `World.ordered_of_reaches`: whatever has happened, the calls are in order.
-/

namespace Mandate

/-- The service, the facts that are subscribed at its provider, and the calls that have begun. -/
structure World where
  service : Service
  provider : Std.TreeSet FactKey := ∅
  calls : CallId → Option Stage := fun _ => none

namespace World

/-- Nothing has happened yet. -/
def start (config : EngineConfig) : World where
  service := .ofConfig config

/-- A call goes on. -/
def goOn (w : World) (id : CallId) (next : Service × Stage) : World :=
  { w with service := next.1, calls := Function.update w.calls id (some next.2) }

/-- What can happen next. -/
inductive Step (w : World) : World → Prop
  /-- The service is called. -/
  | begin {id : CallId} (hid : w.calls id = none) (request : Request) :
      Step w (w.goOn id (w.service.begin request))
  /-- A call enters the gate, which is open. -/
  | enterGate {id : CallId} {keys : List FactKey} {reply : Reply}
      (hid : w.calls id = some (.gate keys reply)) (hopen : w.service.gateTaken = false) :
      Step w (w.goOn id (w.service.enterGate keys reply))
  /-- The provider ends one of the subscriptions that it has been asked to end. -/
  | ends {id : CallId} {keys wanted : List FactKey} {reply : Reply} {key : FactKey}
      (hid : w.calls id = some (.unsubscribing keys wanted reply)) (hkey : key ∈ keys) :
      Step w { w with provider := w.provider.erase key }
  /-- The provider has ended all of them. -/
  | unsubscribed {id : CallId} {keys wanted : List FactKey} {reply : Reply}
      (hid : w.calls id = some (.unsubscribing keys wanted reply))
      (hdone : ∀ key ∈ keys, key ∉ w.provider) :
      Step w (w.goOn id (w.service.unsubscribed keys wanted reply true))
  /-- The provider begins one of the subscriptions that it has been asked to begin. -/
  | begins {id : CallId} {keys : List FactKey} {reply : Reply} {key : FactKey}
      (hid : w.calls id = some (.subscribing keys reply)) (hkey : key ∈ keys) :
      Step w { w with provider := w.provider.insert key }
  /-- The provider has begun all of them. -/
  | resubscribed {id : CallId} {keys : List FactKey} {reply : Reply}
      (hid : w.calls id = some (.subscribing keys reply))
      (hdone : ∀ key ∈ keys, key ∈ w.provider) :
      Step w (w.goOn id (w.service.resubscribed keys reply true))
  /-- A call has fetched the facts of its pull. -/
  | fetched {id : CallId} {plan : PullPlan} {retries : Nat} {reply : Option Reply}
      (hid : w.calls id = some (.pulling plan retries reply)) (news : List FactUpdate)
      (now : Occasion) : Step w (w.goOn id (w.service.fetched plan retries reply news now))
  /-- News are pushed. -/
  | pushed (news : List FactUpdate) (now : Occasion) :
      Step w { w with service := (w.service.updateFacts news now).1 }
  /-- Something is reported to the console, or the reports are read. -/
  | reported (journal : List Event) : Step w { w with service := { w.service with journal } }

/-- The second world may come after the first one. -/
def Reaches : World → World → Prop :=
  Relation.ReflTransGen Step

/-- The network follows the fact. -/
def Follows (w : World) (key : FactKey) : Prop :=
  w.service.engine.network.isSubscribed key = true

/-- Some call is at such a stage. -/
def Any (w : World) (P : Stage → Prop) : Prop :=
  ∃ id stage, w.calls id = some stage ∧ P stage

/-- When the gate opens next, the fact is going to be subscribed. -/
def Expected (w : World) (key : FactKey) : Prop :=
  w.Any (·.Wants key) ∨ (key ∈ w.service.subscribed ∧ ¬ w.Any (·.Ends key))

/-- The calls do not get in each other's way. -/
structure Ordered (w : World) : Prop where
  rooted : ∃ spare, w.service.engine.Rooted spare
  gateTaken : w.service.gateTaken = true ↔ w.Any (·.isInside = true)
  alone : ∀ {id other : CallId} {stage stage' : Stage}, w.calls id = some stage →
    w.calls other = some stage' → stage.isInside = true → stage'.isInside = true → other = id
  /-- Only what is subscribed is ended. -/
  ends : ∀ key, w.Any (·.Ends key) → key ∈ w.service.subscribed
  /-- Only what is not subscribed is begun. -/
  begins : ∀ key, w.Any (·.Begins key) → key ∉ w.service.subscribed
  disjoint : ∀ key, w.Any (·.Ends key) → ¬ w.Any (·.Wants key)
  /-- Where the provider has nothing to do, the service knows what is subscribed. -/
  provider : ∀ key, ¬ w.Any (·.Ends key) → ¬ w.Any (·.Begins key) →
    (key ∈ w.provider ↔ key ∈ w.service.subscribed)
  /-- What no call at the gate waits for is as the network wants it, or is going to be. -/
  expected : ∀ key, ¬ w.Any (·.Awaits key) → (w.Expected key ↔ w.Follows key)

theorem calls_goOn (w : World) (id other : CallId) (next : Service × Stage) :
    (w.goOn id next).calls other = if other = id then some next.2 else w.calls other := by
  unfold goOn
  exact Function.update_apply w.calls id (some next.2) other

theorem ordered_start (config : EngineConfig) : (start config).Ordered := by
  have hnone (P : Stage → Prop) : ¬ (start config).Any P := by
    rintro ⟨id, stage, hid, -⟩
    cases hid
  constructor
  · exact ⟨[], Engine.rooted_initial _⟩
  · exact ⟨nofun, fun h => (hnone _ h).elim⟩
  · exact fun hid => nomatch hid
  · exact fun key h => (hnone _ h).elim
  · exact fun key h => (hnone _ h).elim
  · exact fun key h => (hnone _ h).elim
  · exact fun key _ _ => Iff.rfl
  · intro key _
    have hsubscribed : key ∉ (start config).service.subscribed := Std.TreeSet.not_mem_emptyc
    have hfollows : ¬ (start config).Follows key := by
      simp [Follows, start, Service.ofConfig, Network.isSubscribed]
    simp only [Expected, hnone, hsubscribed, hfollows, false_and, or_self]

/-! ## What a step does -/

/-- A step outside the gate: calls that have changed what the network follows wait at the gate. -/
structure Outside (w after : World) : Prop where
  provider : after.provider = w.provider
  config : after.service.config = w.service.config
  subscribed : after.service.subscribed = w.service.subscribed
  gateTaken : after.service.gateTaken = w.service.gateTaken
  rooted : ∃ spare, after.service.engine.Rooted spare
  inside : ∀ id stage, stage.isInside = true →
    (after.calls id = some stage ↔ w.calls id = some stage)
  waiting : ∀ id keys reply, w.calls id = some (.gate keys reply) →
    after.calls id = some (.gate keys reply)
  inLine : ∀ id stage, w.calls id = some stage → stage.isInLine = true →
    ∃ stage', after.calls id = some stage' ∧ stage'.isInLine = true
  follows : ∀ key, ¬ after.Any (·.Awaits key) → (after.Follows key ↔ w.Follows key)

/-- What a call at or behind the gate aims at: its own facts as the network wants them, and all
others as they are going to be. -/
def Goal (w : World) (stage : Stage) (key : FactKey) : Prop :=
  (stage.Awaits key ∧ w.Follows key) ∨ (¬ stage.Awaits key ∧ w.Expected key)

/-- What a step does. -/
inductive Effect (w : World) : World → Prop
  | outside {after : World} (h : w.Outside after) : Effect w after
  /-- A call goes into the gate, or on behind it, and nobody else is there.  The provider has done
  what it has been asked to, and the service `s` takes note of it. -/
  | behind {id : CallId} {stage : Stage} {s : Service} {next : Service × Stage}
      (hid : w.calls id = some stage) (hstage : stage.isInLine = false)
      (halone : ∀ other stage', w.calls other = some stage' → stage'.isInside = true → other = id)
      (haims : s.Aims (w.Goal stage) next) (hengine : s.engine = w.service.engine)
      (hconfig : s.config = w.service.config)
      (hprovider : ∀ key, key ∈ w.provider ↔ key ∈ s.subscribed) : Effect w (w.goOn id next)
  /-- The provider does something that it has been asked to. -/
  | provider {provider : Std.TreeSet FactKey}
      (h : ∀ key, ¬ w.Any (·.Ends key) → ¬ w.Any (·.Begins key) →
        (key ∈ provider ↔ key ∈ w.provider)) : Effect w { w with provider }

section Effects

variable {w : World} {id : CallId}

/-- A step of a call that is neither at the gate nor behind it. -/
theorem outside_of_changes {next : Service × Stage} (hchanges : w.service.Changes next)
    (hid : ∀ stage, w.calls id = some stage → stage.isInLine = true)
    (hnext : w.calls id ≠ none → next.2.isInLine = true) : w.Outside (w.goOn id next) where
  provider := rfl
  config := hchanges.config
  subscribed := hchanges.subscribed
  gateTaken := hchanges.gateTaken
  rooted := hchanges.rooted
  inside other stage hinside := by
    rw [calls_goOn]
    by_cases hother : other = id
    · rw [if_pos hother, hother]
      constructor
      · rintro ⟨rfl⟩
        rw [hchanges.outside] at hinside
        cases hinside
      · intro hthere
        rw [Stage.isInside_of_isInLine (hid stage hthere)] at hinside
        cases hinside
    · rw [if_neg hother]
  waiting other keys reply hgate := by
    have hother : other ≠ id := by
      rintro rfl
      cases hid _ hgate
    rw [calls_goOn, if_neg hother, hgate]
  inLine other stage hstage hline := by
    rw [calls_goOn]
    by_cases hother : other = id
    · rw [if_pos hother]
      exact ⟨_, rfl, hnext (by rw [← hother, hstage]; exact Option.some_ne_none _)⟩
    · rw [if_neg hother]
      exact ⟨stage, hstage, hline⟩
  follows key hkey := by
    have hnone : ¬ next.2.Awaits key := fun hawaits =>
      hkey ⟨id, next.2, by rw [calls_goOn, if_pos rfl], hawaits⟩
    exact iff_of_eq (congrArg (· = true) (hchanges.follows key hnone))

/-- A step of the service that no call takes. -/
theorem outside_of_same {s : Service} (hconfig : s.config = w.service.config)
    (hsubscribed : s.subscribed = w.service.subscribed)
    (hgate : s.gateTaken = w.service.gateTaken) (hrooted : ∃ spare, s.engine.Rooted spare)
    (hfollows : ∀ key, s.engine.network.isSubscribed key =
      w.service.engine.network.isSubscribed key) : w.Outside { w with service := s } where
  provider := rfl
  config := hconfig
  subscribed := hsubscribed
  gateTaken := hgate
  rooted := hrooted
  inside _ _ _ := Iff.rfl
  waiting _ _ _ hid := hid
  inLine _ stage hid hline := ⟨stage, hid, hline⟩
  follows key _ := iff_of_eq (congrArg (· = true) (hfollows key))

/-- If nobody else is behind the gate, what is going on there is what the one call does. -/
theorem any_iff_of_alone {stage : Stage} {P : Stage → Prop} (hid : w.calls id = some stage)
    (halone : ∀ other stage', w.calls other = some stage' → stage'.isInside = true → other = id)
    (hP : ∀ stage, P stage → stage.isInside = true) : w.Any P ↔ P stage := by
  constructor
  · rintro ⟨other, stage', hother, hp⟩
    have hsame := halone other stage' hother (hP stage' hp)
    rw [hsame, hid, Option.some.injEq] at hother
    rwa [hother]
  · exact fun hp => ⟨id, stage, hid, hp⟩

/-- A step of the provider concerns what it has been asked to do. -/
theorem effect_of_busy {key : FactKey} {provider : Std.TreeSet FactKey}
    (hbusy : w.Any (·.Ends key) ∨ w.Any (·.Begins key))
    (hothers : ∀ other, other ≠ key → (other ∈ provider ↔ other ∈ w.provider)) :
    w.Effect { w with provider } := by
  refine .provider fun other hends hbegins => hothers other ?_
  rintro rfl
  exact hbusy.elim hends hbegins

section Behind

variable {keys wanted : List FactKey} {reply : Reply}

theorem effect_of_enterGate (h : w.Ordered) (hid : w.calls id = some (.gate keys reply))
    (hopen : w.service.gateTaken = false) :
    w.Effect (w.goOn id (w.service.enterGate keys reply)) := by
  have hnobody : ¬ w.Any (·.isInside = true) := by
    rw [← h.gateTaken, hopen]
    exact Bool.false_ne_true
  have hquiet {P : Stage → Prop} (hP : ∀ stage, P stage → stage.isInside = true) : ¬ w.Any P :=
    fun ⟨other, stage, hother, hp⟩ => hnobody ⟨other, stage, hother, hP stage hp⟩
  have hends (key : FactKey) : ¬ w.Any (·.Ends key) :=
    hquiet fun _ hends => Stage.isInside_of_busy (Or.inl hends)
  have hbegins (key : FactKey) : ¬ w.Any (·.Begins key) :=
    hquiet fun _ hbegins => Stage.isInside_of_busy (Or.inr (Or.inl hbegins))
  have hwants (key : FactKey) : ¬ w.Any (·.Wants key) :=
    hquiet fun _ hwants => Stage.isInside_of_busy (Or.inr (Or.inr hwants))
  refine .behind hid rfl ?_ ((Service.aims_enterGate w.service keys reply).of_iff ?_) rfl rfl ?_
  · exact fun other stage hother hinside => (hnobody ⟨other, stage, hother, hinside⟩).elim
  · intro key
    simp only [Goal, Stage.Awaits, Expected, hwants, hends, Follows]
    by_cases hkey : key ∈ keys <;> simp [hkey]
  · exact fun key => h.provider key (hends key) (hbegins key)

/-- The call behind the gate, and what the provider has been asked to do for it. -/
theorem alone_inside {stage : Stage} (h : w.Ordered) (hid : w.calls id = some stage)
    (hinside : stage.isInside = true) :
    (∀ other stage', w.calls other = some stage' → stage'.isInside = true → other = id) ∧
      ∀ key, (w.Any (·.Ends key) ↔ stage.Ends key) ∧ (w.Any (·.Begins key) ↔ stage.Begins key) ∧
        (w.Any (·.Wants key) ↔ stage.Wants key) := by
  have halone : ∀ other stage', w.calls other = some stage' → stage'.isInside = true →
      other = id := fun other stage' hother => h.alone hid hother hinside
  refine ⟨halone, fun key => ⟨?_, ?_, ?_⟩⟩
  · exact any_iff_of_alone hid halone fun _ hends => Stage.isInside_of_busy (Or.inl hends)
  · exact any_iff_of_alone hid halone fun _ hbegins =>
      Stage.isInside_of_busy (Or.inr (Or.inl hbegins))
  · exact any_iff_of_alone hid halone fun _ hwants =>
      Stage.isInside_of_busy (Or.inr (Or.inr hwants))

theorem effect_of_unsubscribed (h : w.Ordered)
    (hid : w.calls id = some (.unsubscribing keys wanted reply))
    (hdone : ∀ key ∈ keys, key ∉ w.provider) :
    w.Effect (w.goOn id (w.service.unsubscribed keys wanted reply true)) := by
  rcases alone_inside h hid rfl with ⟨halone, hbusy⟩
  have htaken : w.service.gateTaken = true := h.gateTaken.2 ⟨id, _, hid, rfl⟩
  refine .behind hid rfl halone
    ((Service.aims_unsubscribed htaken keys wanted reply).of_iff ?_) rfl rfl ?_
  · intro key
    simp only [Goal, Expected, hbusy]
    simp [Stage.Awaits, Stage.Wants, Stage.Ends]
  · intro key
    rw [mem_foldl_erase]
    by_cases hkey : key ∈ keys
    · simp [hkey, hdone key hkey]
    · rw [and_iff_left hkey]
      exact h.provider key (fun hends => hkey ((hbusy key).1.1 hends)) (hbusy key).2.1.1

theorem effect_of_resubscribed (h : w.Ordered) (hid : w.calls id = some (.subscribing keys reply))
    (hdone : ∀ key ∈ keys, key ∈ w.provider) :
    w.Effect (w.goOn id (w.service.resubscribed keys reply true)) := by
  rcases alone_inside h hid rfl with ⟨halone, hbusy⟩
  refine .behind hid rfl halone
    ((Service.aims_resubscribed w.service keys reply).of_iff ?_) rfl rfl ?_
  · intro key
    simp only [Goal, Expected, hbusy]
    simp [Stage.Awaits, Stage.Wants, Stage.Ends]
  · intro key
    rw [mem_foldl_insert]
    by_cases hkey : key ∈ keys
    · simp [hkey, hdone key hkey]
    · rw [or_iff_right hkey]
      exact h.provider key (hbusy key).1.1 (fun hbegins => hkey ((hbusy key).2.1.1 hbegins))

end Behind

end Effects

/-- What any step does. -/
theorem Step.effect {w after : World} (h : w.Ordered) (hstep : Step w after) : w.Effect after := by
  rcases h.rooted with ⟨spare, hrooted⟩
  cases hstep with
  | begin hid request =>
    exact .outside (outside_of_changes (Service.changes_begin hrooted request) (by simp [hid])
      (fun hthere => (hthere hid).elim))
  | @enterGate id keys reply hid hopen => exact effect_of_enterGate h hid hopen
  | @ends id keys wanted reply key hid hkey =>
    refine effect_of_busy (Or.inl ⟨id, _, hid, hkey⟩) ?_
    intro other hother
    rw [Std.TreeSet.mem_erase, Ne, Std.LawfulEqCmp.compare_eq_iff_eq]
    exact and_iff_right (Ne.symm hother)
  | @unsubscribed id keys wanted reply hid hdone => exact effect_of_unsubscribed h hid hdone
  | @begins id keys reply key hid hkey =>
    refine effect_of_busy (Or.inr ⟨id, _, hid, hkey⟩) ?_
    intro other hother
    rw [Std.TreeSet.mem_insert, Std.LawfulEqCmp.compare_eq_iff_eq]
    exact or_iff_right (Ne.symm hother)
  | @resubscribed id keys reply hid hdone => exact effect_of_resubscribed h hid hdone
  | @fetched id plan retries reply hid news now =>
    have hline := (w.service.fetched_cases plan retries reply news now).2
    exact .outside (outside_of_changes
      (Service.changes_fetched hrooted plan retries reply news now) (by simp [hid, Stage.isInLine])
      (fun _ => hline))
  | pushed news now =>
    have hrest : ∀ key, (w.service.updateFacts news now).1.engine.network.isSubscribed key =
        w.service.engine.network.isSubscribed key := hrooted.isSubscribed_apply news none now
    exact .outside (outside_of_same rfl rfl rfl ⟨spare, hrooted.apply news none now⟩ hrest)
  | reported journal => exact .outside (outside_of_same rfl rfl rfl ⟨spare, hrooted⟩ fun _ => rfl)

/-! ## The calls stay in order -/

section Order

variable {w after : World}

/-- Outside the gate nothing changes about what is going on behind it. -/
theorem Outside.any_iff (h : w.Outside after) {P : Stage → Prop}
    (hP : ∀ stage, P stage → stage.isInside = true) : after.Any P ↔ w.Any P := by
  constructor
  · rintro ⟨id, stage, hid, hp⟩
    exact ⟨id, stage, (h.inside id stage (hP stage hp)).1 hid, hp⟩
  · rintro ⟨id, stage, hid, hp⟩
    exact ⟨id, stage, (h.inside id stage (hP stage hp)).2 hid, hp⟩

theorem Outside.busy_iff (h : w.Outside after) (key : FactKey) :
    (after.Any (·.Ends key) ↔ w.Any (·.Ends key)) ∧
      (after.Any (·.Begins key) ↔ w.Any (·.Begins key)) ∧
        (after.Any (·.Wants key) ↔ w.Any (·.Wants key)) :=
  ⟨h.any_iff fun _ hends => Stage.isInside_of_busy (Or.inl hends),
    h.any_iff fun _ hbegins => Stage.isInside_of_busy (Or.inr (Or.inl hbegins)),
    h.any_iff fun _ hwants => Stage.isInside_of_busy (Or.inr (Or.inr hwants))⟩

theorem Outside.expected_iff (h : w.Outside after) (key : FactKey) :
    after.Expected key ↔ w.Expected key := by
  unfold Expected
  rw [(h.busy_iff key).1, (h.busy_iff key).2.2, h.subscribed]

/-- A call at the gate stays there. -/
theorem Outside.awaits (h : w.Outside after) {key : FactKey} (hawaits : w.Any (·.Awaits key)) :
    after.Any (·.Awaits key) := by
  rcases hawaits with ⟨id, stage, hid, hkey⟩
  cases stage with
  | gate keys reply => exact ⟨id, _, h.waiting id keys reply hid, hkey⟩
  | _ => exact hkey.elim

theorem Ordered.outside (hw : w.Ordered) (h : w.Outside after) : after.Ordered where
  rooted := h.rooted
  gateTaken := by rw [h.gateTaken, hw.gateTaken, h.any_iff fun _ hinside => hinside]
  alone {id other stage stage'} hid hother hinside hinside' :=
    hw.alone ((h.inside id stage hinside).1 hid) ((h.inside other stage' hinside').1 hother)
      hinside hinside'
  ends key := by
    rw [(h.busy_iff key).1, h.subscribed]
    exact hw.ends key
  begins key := by
    rw [(h.busy_iff key).2.1, h.subscribed]
    exact hw.begins key
  disjoint key := by
    rw [(h.busy_iff key).1, (h.busy_iff key).2.2]
    exact hw.disjoint key
  provider key := by
    rw [(h.busy_iff key).1, (h.busy_iff key).2.1, h.provider, h.subscribed]
    exact hw.provider key
  expected key hkey := by
    rw [h.expected_iff, h.follows key hkey]
    exact hw.expected key fun hawaits => hkey (h.awaits hawaits)

theorem Ordered.providing (hw : w.Ordered) {provider : Std.TreeSet FactKey}
    (h : ∀ key, ¬ w.Any (·.Ends key) → ¬ w.Any (·.Begins key) →
      (key ∈ provider ↔ key ∈ w.provider)) : Ordered { w with provider } :=
  { hw with
    alone := hw.alone
    provider := fun key hends hbegins =>
      (h key hends hbegins).trans (hw.provider key hends hbegins) }

section Behind

variable {id : CallId} {stage : Stage} {s : Service} {next : Service × Stage}

/-- A call that goes on behind the gate is alone there. -/
theorem any_goOn_iff
    (halone : ∀ other stage', w.calls other = some stage' → stage'.isInside = true → other = id)
    {P : Stage → Prop} (hP : ∀ stage, P stage → stage.isInside = true) :
    (w.goOn id next).Any P ↔ P next.2 := by
  constructor
  · rintro ⟨other, stage', hother, hp⟩
    rw [calls_goOn] at hother
    split at hother
    · cases hother
      exact hp
    · rename_i hne
      exact (hne (halone other stage' hother (hP stage' hp))).elim
  · exact fun hp => ⟨id, next.2, by rw [calls_goOn, if_pos rfl], hp⟩

/-- When a call has gone on behind the gate, its goal is what is expected. -/
theorem expected_goOn_iff
    (halone : ∀ other stage', w.calls other = some stage' → stage'.isInside = true → other = id)
    {goal : FactKey → Prop} (haims : s.Aims goal next) (key : FactKey) :
    (w.goOn id next).Expected key ↔ goal key := by
  rw [haims.goal, Expected,
    any_goOn_iff halone fun _ hwants => Stage.isInside_of_busy (Or.inr (Or.inr hwants)),
    any_goOn_iff halone fun _ hends => Stage.isInside_of_busy (Or.inl hends), ← haims.subscribed]
  rfl

theorem Ordered.behind (hw : w.Ordered) (hid : w.calls id = some stage)
    (halone : ∀ other stage', w.calls other = some stage' → stage'.isInside = true → other = id)
    (haims : s.Aims (w.Goal stage) next) (hengine : s.engine = w.service.engine)
    (hprovider : ∀ key, key ∈ w.provider ↔ key ∈ s.subscribed) : (w.goOn id next).Ordered := by
  have hends (key : FactKey) : (w.goOn id next).Any (·.Ends key) ↔ next.2.Ends key :=
    any_goOn_iff halone fun _ hends => Stage.isInside_of_busy (Or.inl hends)
  have hbegins (key : FactKey) : (w.goOn id next).Any (·.Begins key) ↔ next.2.Begins key :=
    any_goOn_iff halone fun _ hbegins => Stage.isInside_of_busy (Or.inr (Or.inl hbegins))
  have hwants (key : FactKey) : (w.goOn id next).Any (·.Wants key) ↔ next.2.Wants key :=
    any_goOn_iff halone fun _ hwants => Stage.isInside_of_busy (Or.inr (Or.inr hwants))
  have hafter : (w.goOn id next).service.engine = w.service.engine :=
    haims.engine.trans hengine
  have hsubscribed : (w.goOn id next).service.subscribed = s.subscribed := haims.subscribed
  constructor
  · rw [hafter]
    exact hw.rooted
  · rw [any_goOn_iff halone fun _ hinside => hinside]
    exact iff_of_eq (congrArg (· = true) haims.gateTaken)
  · intro first second stage' stage'' hfirst hsecond hinside hinside'
    rw [calls_goOn] at hfirst hsecond
    have hone : first = id := by
      split at hfirst
      · assumption
      · exact halone first stage' hfirst hinside
    have htwo : second = id := by
      split at hsecond
      · assumption
      · exact halone second stage'' hsecond hinside'
    rw [hone, htwo]
  · intro key
    rw [hends, hsubscribed]
    exact haims.ends key
  · intro key
    rw [hbegins, hsubscribed]
    exact haims.begins key
  · intro key
    rw [hends, hwants]
    exact haims.disjoint key
  · intro key _ _
    rw [hsubscribed]
    exact hprovider key
  · intro key hkey
    rw [expected_goOn_iff halone haims]
    have hfollows : (w.goOn id next).Follows key ↔ w.Follows key := by
      unfold Follows
      rw [hafter]
    rw [hfollows, Goal]
    by_cases hawaits : stage.Awaits key
    · simp [hawaits]
    · -- nobody has waited for the fact
      have hnone : ¬ w.Any (·.Awaits key) := by
        rintro ⟨other, stage', hother, hthere⟩
        by_cases hsame : other = id
        · rw [hsame, hid, Option.some.injEq] at hother
          exact hawaits (hother ▸ hthere)
        · exact hkey ⟨other, stage', by rw [calls_goOn, if_neg hsame, hother], hthere⟩
      simp only [hawaits, false_and, not_false_eq_true, true_and, false_or]
      exact hw.expected key hnone

end Behind

/-- Every step keeps the calls in order. -/
theorem Step.ordered (hw : w.Ordered) (hstep : Step w after) : after.Ordered := by
  cases hstep.effect hw with
  | outside h => exact hw.outside h
  | behind hid _ halone haims hengine _ hprovider =>
    exact hw.behind hid halone haims hengine hprovider
  | provider h => exact hw.providing h

/-- The settings never change. -/
theorem Step.config (hw : w.Ordered) (hstep : Step w after) :
    after.service.config = w.service.config := by
  cases hstep.effect hw with
  | outside h => exact h.config
  | behind _ _ _ haims _ hconfig _ => exact haims.config.trans hconfig
  | provider _ => rfl

end Order

theorem Reaches.ordered {w later : World} (h : w.Reaches later) (hw : w.Ordered) :
    later.Ordered := by
  induction h with
  | refl => exact hw
  | tail _ hstep ih => exact hstep.ordered ih

/-- Whatever has happened, the calls are in order. -/
theorem ordered_of_reaches {config : EngineConfig} {w : World} (h : (start config).Reaches w) :
    w.Ordered :=
  h.ordered (ordered_start config)

theorem config_of_reaches {config : EngineConfig} {w : World} (h : (start config).Reaches w) :
    w.service.config = config := by
  induction h with
  | refl => rfl
  | tail hearlier hstep ih => exact (hstep.config (ordered_of_reaches hearlier)).trans ih

/-- A step concerns one call at most. -/
theorem Step.calls_cases {w after : World} (h : Step w after) :
    after.calls = w.calls ∨ ∃ id stage, after.calls = Function.update w.calls id (some stage) := by
  cases h with
  | ends _ _ => exact Or.inl rfl
  | begins _ _ => exact Or.inl rfl
  | pushed _ _ => exact Or.inl rfl
  | reported _ => exact Or.inl rfl
  | _ => exact Or.inr ⟨_, _, rfl⟩

/-- A call that has begun does not vanish. -/
theorem Reaches.begun {w later : World} {id : CallId} (h : w.Reaches later)
    (hid : w.calls id ≠ none) : later.calls id ≠ none := by
  induction h with
  | refl => exact hid
  | tail _ hstep ih =>
    rcases hstep.calls_cases with hsame | ⟨other, stage, hupdate⟩
    · rwa [hsame]
    · rw [hupdate, Function.update_apply]
      split
      · exact Option.some_ne_none _
      · exact ih

/-- Only finitely many calls have begun. -/
theorem exists_calls {config : EngineConfig} {w : World} (h : (start config).Reaches w) :
    ∃ ids : List CallId, ∀ id, w.calls id ≠ none → id ∈ ids := by
  induction h with
  | refl => exact ⟨[], fun _ hid => (hid rfl).elim⟩
  | tail _ hstep ih =>
    rcases ih with ⟨ids, hids⟩
    rcases hstep.calls_cases with hsame | ⟨other, stage, hupdate⟩
    · exact ⟨ids, by rwa [hsame]⟩
    · refine ⟨other :: ids, fun id hid => ?_⟩
      rw [hupdate, Function.update_apply] at hid
      split at hid
      · rename_i heq
        exact heq ▸ List.mem_cons_self
      · exact List.mem_cons_of_mem _ (hids id hid)

end World
end Mandate
