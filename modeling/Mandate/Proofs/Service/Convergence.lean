import Mandate.Proofs.Engine.Generations
import Mandate.Proofs.Service.Interleaving

/-!
# Subscriptions converge

Whenever all calls are in line, the provider, the service and the network agree on what is
subscribed.  In between, a registration whose facts have been subscribed keeps them: no removal that
is late ends a subscription that the network has come to need again.

Main results:

- Theorem `World.Ordered.agree`: the agreement when all calls are in line.
- Theorem `World.Ordered.awaited_of_ends`: who needs a subscription that is being ended is waiting.
- Definition `World.Secures`, theorem `World.Step.secures`: what a call may rely on.
- Theorem `World.exists_settled`: all calls can come to their end.
- Theorem `World.subscriptions_converge`: all of it, after whatever has happened.
-/

namespace Mandate
namespace World

variable {w after : World} {id : CallId} {key : FactKey}

/-! ## Agreement -/

/-- When all calls are in line, everybody agrees on what is subscribed. -/
theorem Ordered.agree (hw : w.Ordered)
    (hline : ∀ id stage, w.calls id = some stage → stage.isInLine = true) (key : FactKey) :
    (key ∈ w.provider ↔ key ∈ w.service.subscribed) ∧
      (key ∈ w.service.subscribed ↔ w.Follows key) := by
  have hnone {P : Stage → Prop} (hP : ∀ stage, stage.isInLine = true → ¬ P stage) : ¬ w.Any P :=
    fun ⟨id, stage, hid, hp⟩ => hP stage (hline id stage hid) hp
  have hawaits : ¬ w.Any (·.Awaits key) := hnone fun _ => Stage.not_awaits_of_isInLine
  have hends : ¬ w.Any (·.Ends key) :=
    hnone fun _ hstage => (Stage.of_outside (Stage.isInside_of_isInLine hstage)).1
  have hbegins : ¬ w.Any (·.Begins key) :=
    hnone fun _ hstage => (Stage.of_outside (Stage.isInside_of_isInLine hstage)).2.1
  have hwants : ¬ w.Any (·.Wants key) :=
    hnone fun _ hstage => (Stage.of_outside (Stage.isInside_of_isInLine hstage)).2.2
  refine ⟨hw.provider key hends hbegins, ?_⟩
  rw [← hw.expected key hawaits, Expected]
  simp only [hwants, hends, not_false_eq_true, and_true, false_or]

/-! ## What a call may rely on -/

theorem Ordered.not_ends_of_expected (hw : w.Ordered) (h : w.Expected key) :
    ¬ w.Any (·.Ends key) := by
  intro hends
  rcases h with hwants | ⟨-, hnot⟩
  · exact hw.disjoint key hends hwants
  · exact hnot hends

/-- What is subscribed and going to stay so is subscribed at the provider. -/
theorem Ordered.provides (hw : w.Ordered) (h : w.Expected key)
    (hsubscribed : key ∈ w.service.subscribed) : key ∈ w.provider :=
  (hw.provider key (hw.not_ends_of_expected h) fun hbegins =>
    hw.begins key hbegins hsubscribed).2 hsubscribed

/-- If a subscription is being ended that the network has come to need again, the call that needs it
waits at the gate. -/
theorem Ordered.awaited_of_ends (hw : w.Ordered) (hends : w.Any (·.Ends key))
    (hfollows : w.Follows key) : w.Any (·.Awaits key) := by
  by_contra hnone
  exact hw.not_ends_of_expected ((hw.expected key hnone).2 hfollows) hends

/-- The call waits at the gate with the fact, or the fact is going to be subscribed, and is so once
the call is in line. -/
def Secures (w : World) (id : CallId) (key : FactKey) : Prop :=
  (∃ keys reply, w.calls id = some (.gate keys reply) ∧ key ∈ keys) ∨
    (w.Expected key ∧ ∃ stage, w.calls id = some stage ∧
      (stage.isInLine = true → key ∈ w.service.subscribed))

theorem Outside.secures (h : w.Outside after) (hsecures : w.Secures id key) :
    after.Secures id key := by
  rcases hsecures with ⟨keys, reply, hid, hkey⟩ | ⟨hexpected, stage, hid, hstage⟩
  · exact Or.inl ⟨keys, reply, h.waiting id keys reply hid, hkey⟩
  · refine Or.inr ⟨(h.expected_iff key).2 hexpected, ?_⟩
    rw [h.subscribed]
    cases hline : stage.isInLine with
    | true =>
      rcases h.inLine id stage hid hline with ⟨stage', hid', -⟩
      exact ⟨stage', hid', fun _ => hstage hline⟩
    | false =>
      refine ⟨stage, ?_, hstage⟩
      cases stage with
      | gate keys reply => exact h.waiting id keys reply hid
      | unsubscribing keys wanted reply => exact (h.inside id _ rfl).2 hid
      | subscribing keys reply => exact (h.inside id _ rfl).2 hid
      | pulling _ _ _ => cases hline
      | done _ => cases hline

/-- A step behind the gate keeps what a call relies on, as long as the network needs it. -/
theorem Ordered.secures_behind (hw : w.Ordered) {other : CallId} {stage : Stage} {s : Service}
    {next : Service × Stage} (hother : w.calls other = some stage)
    (halone : ∀ third stage', w.calls third = some stage' → stage'.isInside = true → third = other)
    (haims : s.Aims (w.Goal stage) next)
    (hprovider : ∀ key, key ∈ w.provider ↔ key ∈ s.subscribed) (hfollows : w.Follows key)
    (hsecures : w.Secures id key) : (w.goOn other next).Secures id key := by
  have hgoal : w.Goal stage key → (w.goOn other next).Expected key :=
    (expected_goOn_iff halone haims key).2
  have hnext : w.Goal stage key → next.2.isInLine = true →
      key ∈ (w.goOn other next).service.subscribed := by
    intro hthere hline
    rcases (haims.goal key).1 hthere with hwants | ⟨hsubscribed, -⟩
    · exact ((Stage.of_outside (Stage.isInside_of_isInLine hline)).2.2 hwants).elim
    · rw [← haims.subscribed] at hsubscribed
      exact hsubscribed
  have hself : (w.goOn other next).calls other = some next.2 := by rw [calls_goOn, if_pos rfl]
  rcases hsecures with ⟨keys, reply, hid, hkey⟩ | ⟨hexpected, stage', hid, hstage'⟩
  · by_cases hsame : id = other
    · -- the call itself enters the gate
      subst hsame
      have hawaits : stage.Awaits key := by
        rw [hid, Option.some.injEq] at hother
        exact hother ▸ hkey
      have hthere : w.Goal stage key := Or.inl ⟨hawaits, hfollows⟩
      exact Or.inr ⟨hgoal hthere, next.2, hself, hnext hthere⟩
    · exact Or.inl ⟨keys, reply, by rw [calls_goOn, if_neg hsame, hid], hkey⟩
  · have hthere : w.Goal stage key := by
      by_cases hawaits : stage.Awaits key
      · exact Or.inl ⟨hawaits, hfollows⟩
      · exact Or.inr ⟨hawaits, hexpected⟩
    refine Or.inr ⟨hgoal hthere, ?_⟩
    by_cases hsame : id = other
    · exact ⟨next.2, hsame ▸ hself, hnext hthere⟩
    · refine ⟨stage', by rw [calls_goOn, if_neg hsame, hid], fun hline => ?_⟩
      have hsubscribed := (hprovider key).1 (hw.provides hexpected (hstage' hline))
      rw [← haims.subscribed] at hsubscribed
      exact hsubscribed

/-- Every step keeps what a call relies on, as long as the network needs it. -/
theorem Step.secures (hw : w.Ordered) (hstep : Step w after) (hfollows : after.Follows key)
    (hsecures : w.Secures id key) : after.Secures id key := by
  cases hstep.effect hw with
  | outside h => exact h.secures hsecures
  | @behind other stage s next hother _ halone haims hengine _ hprovider =>
    have hsame : w.Follows key := by
      have hafter : (w.goOn other next).service.engine = w.service.engine :=
        haims.engine.trans hengine
      unfold Follows at hfollows ⊢
      rwa [hafter] at hfollows
    exact hw.secures_behind hother halone haims hprovider hsame hsecures
  | provider _ => exact hsecures

/-- The second world may come after the first one, with the network needing the fact all the time. -/
def ReachesNeeding (key : FactKey) : World → World → Prop :=
  Relation.ReflTransGen fun w after => Step w after ∧ after.Follows key

theorem ReachesNeeding.reaches {later : World} (h : w.ReachesNeeding key later) :
    w.Reaches later := by
  have hle : (fun w after => Step w after ∧ after.Follows key) ≤ Step := fun _ _ hstep => hstep.1
  exact Relation.ReflTransGen.mono hle _ _ h

theorem ReachesNeeding.secures {later : World} (hw : w.Ordered)
    (h : w.ReachesNeeding key later) (hsecures : w.Secures id key) : later.Secures id key := by
  induction h with
  | refl => exact hsecures
  | tail hearlier hstep ih =>
    have hordered := (ReachesNeeding.reaches hearlier).ordered hw
    exact hstep.1.secures hordered hstep.2 ih

/-! ## Calls come to their end -/

/-- The second world may come after the first one without the engine changing. -/
def Settles : World → World → Prop :=
  Relation.ReflTransGen fun w after => Step w after ∧ after.service.engine = w.service.engine

theorem Settles.engine {later : World} (h : w.Settles later) :
    later.service.engine = w.service.engine := by
  induction h with
  | refl => rfl
  | tail _ hstep ih => exact hstep.2.trans ih

theorem Settles.reaches {later : World} (h : w.Settles later) : w.Reaches later := by
  have hle : (fun w after => Step w after ∧ after.service.engine = w.service.engine) ≤ Step :=
    fun _ _ hstep => hstep.1
  exact Relation.ReflTransGen.mono hle _ _ h

/-- As long as the engine does not change, the network needs what it needs. -/
theorem Settles.reachesNeeding {later : World} (h : w.Settles later) (hfollows : w.Follows key) :
    w.ReachesNeeding key later := by
  induction h with
  | refl => exact .refl
  | tail hearlier hstep ih =>
    refine ih.tail ⟨hstep.1, ?_⟩
    unfold Follows at hfollows ⊢
    rwa [hstep.2, Settles.engine hearlier]

/-- The call comes to be in line, without the engine or another call changing. -/
structure Finishes (w : World) (id : CallId) (later : World) : Prop where
  settles : w.Settles later
  inLine : ∃ stage, later.calls id = some stage ∧ stage.isInLine = true
  others : ∀ other, other ≠ id → later.calls other = w.calls other

theorem Finishes.of_goOn {provider : Std.TreeSet FactKey} {next : Service × Stage} {later : World}
    (hsettles : w.Settles (goOn { w with provider } id next))
    (h : (goOn { w with provider } id next).Finishes id later) : w.Finishes id later where
  settles := hsettles.trans h.settles
  inLine := h.inLine
  others other hother := by
    rw [h.others other hother, calls_goOn, if_neg hother]

/-- What holds of the other calls and of every call in line holds of all calls in the end. -/
theorem Finishes.all {later : World} {P : Stage → Prop} (h : w.Finishes id later)
    (hline : ∀ stage, stage.isInLine = true → P stage)
    (hothers : ∀ other stage, other ≠ id → w.calls other = some stage → P stage) :
    ∀ other stage, later.calls other = some stage → P stage := by
  intro other stage hstage
  by_cases hother : other = id
  · rcases h.inLine with ⟨stage', hstage', hend⟩
    rw [hother, hstage', Option.some.injEq] at hstage
    exact hstage ▸ hline stage' hend
  · rw [h.others other hother] at hstage
    exact hothers other stage hother hstage

theorem finishes_of_isInLine {stage : Stage} (hid : w.calls id = some stage)
    (hline : stage.isInLine = true) : w.Finishes id w :=
  ⟨.refl, ⟨stage, hid, hline⟩, fun _ _ => rfl⟩

section Finish

variable {keys wanted : List FactKey} {reply : Reply}

/-- The provider begins the subscriptions that it is asked to begin, one by one. -/
theorem settles_begins (hid : w.calls id = some (.subscribing keys reply)) (todo : List FactKey)
    (htodo : ∀ key ∈ todo, key ∈ keys) :
    w.Settles { w with provider := todo.foldl .insert w.provider } := by
  induction todo generalizing w with
  | nil => exact .refl
  | cons key todo ih =>
    have hstep : Step w { w with provider := w.provider.insert key } :=
      .begins hid (htodo key List.mem_cons_self)
    have hrest := ih (w := { w with provider := w.provider.insert key }) hid fun other hother =>
      htodo other (List.mem_cons_of_mem _ hother)
    exact .head ⟨hstep, rfl⟩ hrest

/-- The provider ends the subscriptions that it is asked to end, one by one. -/
theorem settles_ends (hid : w.calls id = some (.unsubscribing keys wanted reply))
    (todo : List FactKey) (htodo : ∀ key ∈ todo, key ∈ keys) :
    w.Settles { w with provider := todo.foldl .erase w.provider } := by
  induction todo generalizing w with
  | nil => exact .refl
  | cons key todo ih =>
    have hstep : Step w { w with provider := w.provider.erase key } :=
      .ends hid (htodo key List.mem_cons_self)
    have hrest := ih (w := { w with provider := w.provider.erase key }) hid fun other hother =>
      htodo other (List.mem_cons_of_mem _ hother)
    exact .head ⟨hstep, rfl⟩ hrest

theorem calls_goOn_self (w : World) (id : CallId) (next : Service × Stage) :
    (w.goOn id next).calls id = some next.2 := by
  rw [calls_goOn, if_pos rfl]

/-- The provider begins all subscriptions that a call asks for, and the call goes on. -/
theorem settles_resubscribed (hid : w.calls id = some (.subscribing keys reply)) :
    w.Settles (goOn { w with provider := keys.foldl .insert w.provider } id
      (w.service.resubscribed keys reply true)) := by
  have hstep : Step { w with provider := keys.foldl .insert w.provider }
      (goOn { w with provider := keys.foldl .insert w.provider } id
        (w.service.resubscribed keys reply true)) :=
    .resubscribed hid fun key hkey => mem_foldl_insert.2 (Or.inl hkey)
  have hengine := (Service.aims_resubscribed w.service keys reply).engine
  exact (settles_begins hid keys fun _ hkey => hkey).tail ⟨hstep, hengine⟩

/-- The provider ends all subscriptions that a call wants to end, and the call goes on. -/
theorem settles_unsubscribed (htaken : w.service.gateTaken = true)
    (hid : w.calls id = some (.unsubscribing keys wanted reply)) :
    w.Settles (goOn { w with provider := keys.foldl .erase w.provider } id
      (w.service.unsubscribed keys wanted reply true)) := by
  have hstep : Step { w with provider := keys.foldl .erase w.provider }
      (goOn { w with provider := keys.foldl .erase w.provider } id
        (w.service.unsubscribed keys wanted reply true)) :=
    .unsubscribed hid fun key hkey hthere => (mem_foldl_erase.1 hthere).2 hkey
  have hengine := (Service.aims_unsubscribed htaken keys wanted reply).engine
  exact (settles_ends hid keys fun _ hkey => hkey).tail ⟨hstep, hengine⟩

theorem exists_finishes_of_subscribing (hid : w.calls id = some (.subscribing keys reply)) :
    ∃ later, w.Finishes id later := by
  have hline : (w.service.resubscribed keys reply true).2.isInLine = true :=
    Service.isInLine_proceed _ reply
  exact ⟨_, .of_goOn (settles_resubscribed hid)
    (finishes_of_isInLine (calls_goOn_self _ id _) hline)⟩

theorem exists_finishes_of_unsubscribing (htaken : w.service.gateTaken = true)
    (hid : w.calls id = some (.unsubscribing keys wanted reply)) :
    ∃ later, w.Finishes id later := by
  have hnext := calls_goOn_self { w with provider := keys.foldl .erase w.provider } id
    (w.service.unsubscribed keys wanted reply true)
  have hfinish : ∃ later, (goOn { w with provider := keys.foldl .erase w.provider } id
      (w.service.unsubscribed keys wanted reply true)).Finishes id later := by
    rcases Service.stage_resubscribe { w.service with
        subscribed := keys.foldl .erase w.service.subscribed } wanted reply with
      hline | ⟨missing, hstage⟩
    · exact ⟨_, finishes_of_isInLine hnext hline⟩
    · exact exists_finishes_of_subscribing (hnext.trans (congrArg some hstage))
  rcases hfinish with ⟨later, hlater⟩
  exact ⟨later, .of_goOn (settles_unsubscribed htaken hid) hlater⟩

/-- A call at the open gate can come to its end. -/
theorem exists_finishes_of_gate (hid : w.calls id = some (.gate keys reply))
    (hopen : w.service.gateTaken = false) : ∃ later, w.Finishes id later := by
  have haims := Service.aims_enterGate w.service keys reply
  have hnext := calls_goOn_self w id (w.service.enterGate keys reply)
  have hfinish : ∃ later, (w.goOn id (w.service.enterGate keys reply)).Finishes id later := by
    rcases Service.stage_enterGate w.service keys reply with
      hline | ⟨missing, hstage⟩ | ⟨stale, wanted, hstage⟩
    · exact ⟨_, finishes_of_isInLine hnext hline⟩
    · exact exists_finishes_of_subscribing (hnext.trans (congrArg some hstage))
    · refine exists_finishes_of_unsubscribing ?_ (hnext.trans (congrArg some hstage))
      exact haims.gateTaken.trans (by rw [hstage]; rfl)
  rcases hfinish with ⟨later, hlater⟩
  exact ⟨later, .of_goOn (.single ⟨.enterGate hid hopen, haims.engine⟩) hlater⟩

end Finish

/-- The gate is open when nobody is behind it. -/
theorem Ordered.open_of (hw : w.Ordered)
    (houtside : ∀ id stage, w.calls id = some stage → stage.isInside = false) :
    w.service.gateTaken = false := by
  rw [← Bool.not_eq_true, hw.gateTaken]
  rintro ⟨id, stage, hid, hinside⟩
  rw [houtside id stage hid] at hinside
  cases hinside

/-- The call behind the gate can come to its end. -/
theorem Ordered.exists_outside (hw : w.Ordered) :
    ∃ later, w.Settles later ∧
      ∀ id stage, later.calls id = some stage → stage.isInside = false := by
  by_cases hinside : w.Any (·.isInside = true)
  · rcases hinside with ⟨id, stage, hid, hinside⟩
    have hfinish : ∃ later, w.Finishes id later := by
      cases stage with
      | unsubscribing keys wanted reply =>
        exact exists_finishes_of_unsubscribing (hw.gateTaken.2 ⟨id, _, hid, rfl⟩) hid
      | subscribing keys reply => exact exists_finishes_of_subscribing hid
      | _ => cases hinside
    rcases hfinish with ⟨later, hlater⟩
    refine ⟨later, hlater.settles, hlater.all (fun _ => Stage.isInside_of_isInLine) ?_⟩
    intro other stage' hne hother
    rw [← Bool.not_eq_true]
    exact fun hinside' => hne (hw.alone hid hother hinside hinside')
  · refine ⟨w, .refl, fun id stage hid => ?_⟩
    rw [← Bool.not_eq_true]
    exact fun hthere => hinside ⟨id, stage, hid, hthere⟩

/-- Calls at the open gate can come to their end one after another. -/
theorem Ordered.exists_settles (ids : List CallId) (hw : w.Ordered)
    (houtside : ∀ id stage, w.calls id = some stage → stage.isInside = false)
    (hids : ∀ id stage, w.calls id = some stage → stage.isInLine = false → id ∈ ids) :
    ∃ later, w.Settles later ∧
      ∀ id stage, later.calls id = some stage → stage.isInLine = true := by
  induction ids generalizing w with
  | nil =>
    refine ⟨w, .refl, fun id stage hid => ?_⟩
    rw [← Bool.not_eq_false]
    exact fun hstage => List.not_mem_nil (hids id stage hid hstage)
  | cons id ids ih =>
    by_cases hgate : ∃ keys reply, w.calls id = some (.gate keys reply)
    · rcases hgate with ⟨keys, reply, hid⟩
      rcases exists_finishes_of_gate hid (hw.open_of houtside) with ⟨next, hnext⟩
      have hrest : ∀ other stage, next.calls other = some stage → stage.isInLine = false →
          other ∈ ids := by
        intro other stage hother hstage
        have hne : other ≠ id := by
          rintro rfl
          rcases hnext.inLine with ⟨stage', hstage', hline⟩
          rw [hother, Option.some.injEq] at hstage'
          rw [← hstage', hstage] at hline
          cases hline
        rw [hnext.others other hne] at hother
        exact (List.mem_cons.1 (hids other stage hother hstage)).resolve_left hne
      have hout := hnext.all (fun _ => Stage.isInside_of_isInLine) fun other stage _ =>
        houtside other stage
      rcases ih (hnext.settles.reaches.ordered hw) hout hrest with ⟨later, hsettles, hline⟩
      exact ⟨later, hnext.settles.trans hsettles, hline⟩
    · -- the call is in line already
      refine ih hw houtside fun other stage hother hstage => ?_
      refine (List.mem_cons.1 (hids other stage hother hstage)).resolve_left ?_
      rintro rfl
      have hinside := houtside other stage hother
      cases stage with
      | gate keys reply => exact hgate ⟨keys, reply, hother⟩
      | unsubscribing _ _ _ => cases hinside
      | subscribing _ _ => cases hinside
      | pulling _ _ _ => cases hstage
      | done _ => cases hstage

/-- Whatever has happened, all calls can come to their end. -/
theorem exists_settled {config : EngineConfig} (hreaches : (start config).Reaches w) :
    ∃ later, w.Settles later ∧
      ∀ id stage, later.calls id = some stage → stage.isInLine = true := by
  have hw := ordered_of_reaches hreaches
  rcases hw.exists_outside with ⟨next, hnext, houtside⟩
  rcases exists_calls (hreaches.trans hnext.reaches) with ⟨ids, hids⟩
  rcases (hnext.reaches.ordered hw).exists_settles ids houtside fun id stage hid _ =>
    hids id (hid ▸ Option.some_ne_none stage) with ⟨later, hlater, hline⟩
  exact ⟨later, hnext.trans hlater, hline⟩

/-- Whatever has happened: when all calls are in line, a fact is subscribed at the provider if and
only if the service has it as subscribed, and if and only if the network follows it.  If a
subscription is being ended that the network has come to need again, a call that has to bring it in
line still waits at the gate.  And once a call with a fact has come from the gate to its end, the
fact is subscribed at the provider for as long as the network has been needing it all the time. -/
theorem subscriptions_converge {config : EngineConfig} {w : World}
    (hreaches : (start config).Reaches w) :
    ((∀ id stage, w.calls id = some stage → stage.isInLine = true) →
      ∀ key, (key ∈ w.provider ↔ key ∈ w.service.subscribed) ∧
        (key ∈ w.service.subscribed ↔ key ∈ w.service.engine.network.subscriptions)) ∧
      (∀ id keys wanted reply key, w.calls id = some (.unsubscribing keys wanted reply) →
        key ∈ keys → key ∈ w.service.engine.network.subscriptions →
          ∃ other waiting reply', w.calls other = some (.gate waiting reply') ∧ key ∈ waiting) ∧
      ∀ id keys reply key later, w.calls id = some (.gate keys reply) → key ∈ keys →
        w.ReachesNeeding key later →
          (∃ stage, later.calls id = some stage ∧ stage.isInLine = true) →
            key ∈ later.provider := by
  have hw := ordered_of_reaches hreaches
  refine ⟨?_, ?_, ?_⟩
  · intro hline key
    rw [Network.mem_subscriptions_iff]
    exact hw.agree hline key
  · intro id keys wanted reply key hid hkey hneeded
    rw [Network.mem_subscriptions_iff] at hneeded
    rcases hw.awaited_of_ends ⟨id, _, hid, hkey⟩ hneeded with ⟨other, stage, hother, hawaits⟩
    cases stage with
    | gate waiting reply' => exact ⟨other, waiting, reply', hother, hawaits⟩
    | _ => exact hawaits.elim
  · intro id keys reply key later hid hkey hlater hdone
    rcases hdone with ⟨stage, hstage, hline⟩
    have hsecures : later.Secures id key := hlater.secures hw (Or.inl ⟨keys, reply, hid, hkey⟩)
    rcases hsecures with ⟨keys', reply', hgate, -⟩ | ⟨hexpected, stage', hthere, hsubscribed⟩
    · rw [hgate, Option.some.injEq] at hstage
      rw [← hstage] at hline
      cases hline
    · rw [hthere, Option.some.injEq] at hstage
      exact (hlater.reaches.ordered hw).provides hexpected (hsubscribed (hstage ▸ hline))

/-! ## A removal that is late -/

open Engine (redelegation redelegation_lowers)

/-- The rule for a permission is registered, removed, and registered again. -/
def readded : List Operation :=
  [.add (redelegation ⟨"p"⟩), .remove (ConstraintId.derive (redelegation ⟨"p"⟩)),
    .add (redelegation ⟨"p"⟩)]

/-- The engine after the first registration, after the removal, and after the second registration. -/
theorem run_readded (e : Engine) :
    e.run (readded.take 1) = (e.add (redelegation ⟨"p"⟩)).1 ∧
      e.run (readded.take 2) =
        ((e.run (readded.take 1)).remove (ConstraintId.derive (redelegation ⟨"p"⟩))).1 ∧
      e.run readded = ((e.run (readded.take 2)).add (redelegation ⟨"p"⟩)).1 :=
  ⟨rfl, rfl, rfl⟩

theorem unambiguous_readded : Unambiguous readded := by
  intro c d hc hd _
  simp only [readded, List.mem_cons, Operation.add.injEq, reduceCtorEq, List.not_mem_nil, or_false,
    false_or, or_self] at hc hd
  rw [hc, hd]

/-- Whenever the permission is free, the network comes to follow the fact of the rule. -/
theorem follows_add_redelegation (ops : List Operation)
    (hfree : ((Engine.initial {}).run ops).registry.owner? (redelegation ⟨"p"⟩).permission = none) :
    ((Engine.initial {}).run (ops ++ [.add (redelegation ⟨"p"⟩)])).network.isSubscribed
      (.redelegated ⟨"p"⟩) = true := by
  rcases Engine.rooted_run {} (ops ++ [.add (redelegation ⟨"p"⟩)]) with ⟨spare, hrooted⟩
  rw [Engine.run_concat] at hrooted ⊢
  have hp := (Engine.productions_add_of_free hfree (redelegation_lowers _)
    (ConstraintId.derive (redelegation ⟨"p"⟩))).trans (if_pos rfl)
  exact hrooted.isSubscribed_of_mem_facts hp
    (((redelegation_lowers ⟨"p"⟩).mem_facts_iff _).1 (List.mem_singleton_self _))

theorem free_initial :
    (Engine.initial {}).registry.owner? (redelegation ⟨"p"⟩).permission = none := by
  simp [Engine.initial, Registry.owner?]

/-- After the removal nothing is registered. -/
theorem productions_removed (id : ConstraintId) :
    ((Engine.initial {}).run (readded.take 2)).productions[id]? = none := by
  have hadded (id : ConstraintId) := Engine.productions_add_of_free free_initial
    (redelegation_lowers ⟨"p"⟩) id
  rcases Engine.rooted_run {} (readded.take 1) with ⟨spare, hrooted⟩
  rw [(run_readded _).1] at hrooted
  rw [(run_readded _).2.1, (run_readded _).1]
  rcases hrooted.remove_cases (ConstraintId.derive (redelegation ⟨"p"⟩)) with
    ⟨removed, -, hclears⟩ | ⟨-, hnone⟩
  · rw [hclears.productions]
    split
    · rfl
    · rename_i hne
      rw [hadded, if_neg hne]
      simp [Engine.initial]
  · rw [hadded, if_pos rfl] at hnone
    cases hnone

/-- The network follows the fact of the rule while the rule is there. -/
theorem follows_readded :
    ((Engine.initial {}).run (readded.take 1)).network.isSubscribed (.redelegated ⟨"p"⟩) = true ∧
      ((Engine.initial {}).run (readded.take 2)).network.isSubscribed (.redelegated ⟨"p"⟩) =
        false ∧
      ((Engine.initial {}).run readded).network.isSubscribed (.redelegated ⟨"p"⟩) = true := by
  have hsplit : Unambiguous (readded.take 2 ++ readded.drop 2) := unambiguous_readded
  have hcoherent := (Engine.reached {} (readded.take 2) hsplit.of_append).1
  refine ⟨follows_add_redelegation [] free_initial, ?_, ?_⟩
  · rw [← Bool.not_eq_true, hcoherent.isSubscribed_iff]
    rintro ⟨id, p, hp, -⟩
    rw [productions_removed] at hp
    cases hp
  · refine follows_add_redelegation (readded.take 2) ?_
    cases howner : ((Engine.initial {}).run (readded.take 2)).registry.owner?
        (redelegation ⟨"p"⟩).permission with
    | none => rfl
    | some id =>
      rcases (hcoherent.owner_iff _ id).1 howner with ⟨p, hp, -⟩
      rw [productions_removed] at hp
      cases hp

/-- A call that changes whether the network follows a fact waits at the gate with it. -/
theorem exists_begin (hw : w.Ordered) (hid : w.calls id = none) (request : Request) {e : Engine}
    (hengine : (w.service.begin request).1.engine = e)
    (hchange : e.network.isSubscribed key ≠ w.service.engine.network.isSubscribed key) :
    ∃ keys reply, key ∈ keys ∧ Step w (w.goOn id (w.service.begin request)) ∧
      (w.goOn id (w.service.begin request)).calls id = some (.gate keys reply) ∧
      (w.goOn id (w.service.begin request)).service.subscribed = w.service.subscribed ∧
      (w.goOn id (w.service.begin request)).service.gateTaken = w.service.gateTaken := by
  rcases hw.rooted with ⟨spare, hrooted⟩
  have hchanges := Service.changes_begin hrooted request
  rw [calls_goOn_self]
  cases hstage : (w.service.begin request).2 with
  | gate keys reply =>
    refine ⟨keys, reply, ?_, .begin hid request, rfl, hchanges.subscribed, hchanges.gateTaken⟩
    by_contra hnot
    have hsame := hchanges.follows key (by rwa [hstage])
    rw [hengine] at hsame
    exact hchange hsame
  | _ =>
    have hsame := hchanges.follows key (by rw [hstage]; exact not_false)
    rw [hengine] at hsame
    exact (hchange hsame).elim

/-- The rule has been registered, and its fact is subscribed. -/
theorem exists_registered :
    ∃ w, (start {}).Reaches w ∧ w.service.engine = (Engine.initial {}).run (readded.take 1) ∧
      (∀ id stage, w.calls id = some stage → stage.isInLine = true) ∧
      ∀ id, id ≠ ⟨0⟩ → w.calls id = none := by
  have hengine : ((start {}).service.begin (.add (redelegation ⟨"p"⟩))).1.engine =
      (Engine.initial {}).run (readded.take 1) := by
    rw [(run_readded _).1]
    exact Service.engine_begin_add rfl
  have hfree : (start {}).calls ⟨0⟩ = none := rfl
  have hchange : ((Engine.initial {}).run (readded.take 1)).network.isSubscribed
      (.redelegated ⟨"p"⟩) ≠
        (start {}).service.engine.network.isSubscribed (.redelegated ⟨"p"⟩) := by
    rw [follows_readded.1]
    simp [start, Service.ofConfig, Network.isSubscribed]
  rcases exists_begin (ordered_start {}) hfree _ hengine hchange with
    ⟨keys, reply, -, hstep, hgate, -, hopen⟩
  rcases exists_finishes_of_gate hgate hopen with ⟨later, hlater⟩
  refine ⟨later, (Relation.ReflTransGen.single hstep).trans hlater.settles.reaches,
    hlater.settles.engine.trans hengine, ?_, ?_⟩
  · refine hlater.all (fun _ hline => hline) fun id stage hzero hid => ?_
    rw [calls_goOn, if_neg hzero] at hid
    cases hid
  · intro id hne
    rw [hlater.others id hne, calls_goOn, if_neg hne]
    rfl

/-- The rule has been removed, and the provider is ending the subscription of its fact. -/
theorem exists_removing :
    ∃ w, (start {}).Reaches w ∧ w.service.engine = (Engine.initial {}).run (readded.take 2) ∧
      (∃ keys wanted reply, w.calls ⟨1⟩ = some (.unsubscribing keys wanted reply) ∧
        .redelegated ⟨"p"⟩ ∈ keys) ∧
      (∀ id stage, id ≠ ⟨1⟩ → w.calls id = some stage → stage.isInLine = true) ∧
      w.calls ⟨2⟩ = none := by
  rcases exists_registered with ⟨w, hreaches, hengine, hline, hnone⟩
  have hw := ordered_of_reaches hreaches
  have hsubscribed : .redelegated ⟨"p"⟩ ∈ w.service.subscribed := by
    rw [(hw.agree hline _).2, Follows, hengine]
    exact follows_readded.1
  have hremoved : (w.service.begin (.remove (ConstraintId.derive (redelegation ⟨"p"⟩)))).1.engine =
      (Engine.initial {}).run (readded.take 2) := by
    rw [Service.engine_begin_remove, hengine, (run_readded _).2.1]
  have hchange : ((Engine.initial {}).run (readded.take 2)).network.isSubscribed
      (.redelegated ⟨"p"⟩) ≠ w.service.engine.network.isSubscribed (.redelegated ⟨"p"⟩) := by
    rw [hengine, follows_readded.1, follows_readded.2.1]
    exact Bool.false_ne_true
  rcases exists_begin hw (hnone ⟨1⟩ (by decide)) _ hremoved hchange with
    ⟨keys, reply, hkey, hstep, hgate, hsame, hopen⟩
  have hopened := hw.open_of fun id stage hid => Stage.isInside_of_isInLine (hline id stage hid)
  rw [hopened] at hopen
  generalize hnext : w.goOn ⟨1⟩ (w.service.begin
    (.remove (ConstraintId.derive (redelegation ⟨"p"⟩)))) = next at hstep hgate hsame hopen
  have hothers : ∀ id, id ≠ ⟨1⟩ → next.calls id = w.calls id := by
    intro id hne
    rw [← hnext, calls_goOn, if_neg hne]
  have hafter : next.service.engine = (Engine.initial {}).run (readded.take 2) := by
    rw [← hnext]
    exact hremoved
  -- the fact is no longer followed but still subscribed, so the subscription has to end
  have haims := Service.aims_enterGate next.service keys reply
  have hends : (next.service.enterGate keys reply).2.Ends (.redelegated ⟨"p"⟩) := by
    have hgoal := haims.goal (.redelegated ⟨"p"⟩)
    rw [if_pos hkey, hafter, follows_readded.2.1] at hgoal
    by_contra hnot
    exact Bool.false_ne_true (hgoal.2 (Or.inr ⟨hsame ▸ hsubscribed, hnot⟩))
  refine ⟨next.goOn ⟨1⟩ (next.service.enterGate keys reply),
    (hreaches.tail hstep).tail (.enterGate hgate hopen), haims.engine.trans hafter, ?_, ?_, ?_⟩
  · rw [calls_goOn_self]
    cases hstage : (next.service.enterGate keys reply).2 with
    | unsubscribing stale wanted reply' =>
      rw [hstage] at hends
      exact ⟨stale, wanted, reply', rfl, hends⟩
    | _ =>
      rw [hstage] at hends
      exact hends.elim
  · intro id stage hne hid
    rw [calls_goOn, if_neg hne, hothers id hne] at hid
    exact hline id stage hid
  · rw [calls_goOn, if_neg (by decide), hothers ⟨2⟩ (by decide), hnone ⟨2⟩ (by decide)]

/-- While the provider is still ending the subscription, the rule is registered again.  The new
registration waits, and when both calls are in line, the fact is subscribed. -/
theorem subscriptions_converge_readded :
    ∃ w later, (start {}).Reaches w ∧
      (∃ keys wanted reply, w.calls ⟨1⟩ = some (.unsubscribing keys wanted reply) ∧
        .redelegated ⟨"p"⟩ ∈ keys) ∧
      (∃ keys reply, w.calls ⟨2⟩ = some (.gate keys reply) ∧ .redelegated ⟨"p"⟩ ∈ keys) ∧
      w.ReachesNeeding (.redelegated ⟨"p"⟩) later ∧
      (∀ id stage, later.calls id = some stage → stage.isInLine = true) ∧
      .redelegated ⟨"p"⟩ ∈ later.provider ∧ .redelegated ⟨"p"⟩ ∈ later.service.subscribed := by
  rcases exists_removing with
    ⟨w, hreaches, hengine, ⟨stale, wanted, reply, hid, hkey⟩, hline, hnone⟩
  have hw := ordered_of_reaches hreaches
  have hadded : (w.service.begin (.add (redelegation ⟨"p"⟩))).1.engine =
      (Engine.initial {}).run readded := by
    have haccept : w.service.config.limits.accept (redelegation ⟨"p"⟩) =
        .ok (redelegation ⟨"p"⟩) := by
      rw [config_of_reaches hreaches]
      rfl
    rw [Service.engine_begin_add haccept, hengine, (run_readded _).2.2]
  have hchange : ((Engine.initial {}).run readded).network.isSubscribed (.redelegated ⟨"p"⟩) ≠
      w.service.engine.network.isSubscribed (.redelegated ⟨"p"⟩) := by
    rw [hengine, follows_readded.2.1, follows_readded.2.2]
    exact Bool.false_ne_true.symm
  rcases exists_begin hw hnone _ hadded hchange with
    ⟨keys, reply', hthere, hstep, hgate, -, -⟩
  generalize hnext : w.goOn ⟨2⟩ (w.service.begin (.add (redelegation ⟨"p"⟩))) = next
    at hstep hgate
  have hothers : ∀ id, id ≠ ⟨2⟩ → next.calls id = w.calls id := by
    intro id hne
    rw [← hnext, calls_goOn, if_neg hne]
  have hreached := hreaches.tail hstep
  have hfollows : next.Follows (.redelegated ⟨"p"⟩) := by
    have hafter : next.service.engine = (Engine.initial {}).run readded := by
      rw [← hnext]
      exact hadded
    rw [Follows, hafter]
    exact follows_readded.2.2
  -- all calls come to their end, the removal and the new registration among them
  rcases exists_settled hreached with ⟨later, hsettles, hend⟩
  have hneeding := hsettles.reachesNeeding hfollows
  have hbegun : later.calls ⟨2⟩ ≠ none :=
    hsettles.reaches.begun (hgate ▸ Option.some_ne_none _)
  rcases Option.ne_none_iff_exists'.1 hbegun with ⟨stage, hstage⟩
  have hprovided : .redelegated ⟨"p"⟩ ∈ later.provider :=
    (subscriptions_converge hreached).2.2 ⟨2⟩ keys reply' _ later hgate hthere hneeding
      ⟨stage, hstage, hend _ _ hstage⟩
  have hagree := (subscriptions_converge (hreached.trans hsettles.reaches)).1 hend
  exact ⟨next, later, hreached,
    ⟨stale, wanted, reply, (hothers ⟨1⟩ (by decide)).trans hid, hkey⟩,
    ⟨keys, reply', hgate, hthere⟩, hneeding, hend, hprovided, (hagree _).1.1 hprovided⟩

end World
end Mandate
