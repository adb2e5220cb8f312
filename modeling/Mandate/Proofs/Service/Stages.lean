import Mandate.Proofs.Engine.Rooted
import Mandate.Proofs.Maps
import Mandate.Service.Call

/-!
# Stages of a call

What a call does to the service from one wait to the next.  Registrations, removals and pulls do not
touch the subscriptions; a call that changes what the network follows waits at the gate with all
facts concerned.  Behind the gate a call does not touch the engine, and what it is still going to
end and to begin is known from its stage.

Main results:

- Definitions `Stage.Awaits`, `Stage.Ends`, `Stage.Begins`, `Stage.Wants`: what a call is going to
  do to the subscription of a fact.
- Definition `Changes`, theorems `changes_begin`, `changes_fetched`: the steps of a call outside the
  gate.
- Definition `Aims`, theorems `aims_enterGate`, `aims_unsubscribed`, `aims_resubscribed`: the steps
  behind the gate.
-/

namespace Mandate

namespace Stage

/-- The call is behind the gate. -/
def isInside : Stage → Bool
  | .unsubscribing _ _ _ | .subscribing _ _ => true
  | _ => false

/-- The call has no subscriptions to bring in line, or has done so. -/
def isInLine : Stage → Bool
  | .pulling _ _ _ | .done _ => true
  | _ => false

/-- The call waits for the gate to bring the subscription of the fact in line. -/
def Awaits : Stage → FactKey → Prop
  | .gate keys _, key => key ∈ keys
  | _, _ => False

/-- The provider is ending the subscription of the fact for the call. -/
def Ends : Stage → FactKey → Prop
  | .unsubscribing keys _ _, key => key ∈ keys
  | _, _ => False

/-- The provider is beginning the subscription of the fact for the call. -/
def Begins : Stage → FactKey → Prop
  | .subscribing keys _, key => key ∈ keys
  | _, _ => False

/-- When the call leaves the gate, the fact is going to be subscribed. -/
def Wants : Stage → FactKey → Prop
  | .unsubscribing _ wanted _, key => key ∈ wanted
  | .subscribing keys _, key => key ∈ keys
  | _, _ => False

variable {stage : Stage} {key : FactKey}

theorem isInside_of_isInLine (h : stage.isInLine = true) : stage.isInside = false := by
  cases stage <;> simp_all [isInLine, isInside]

theorem not_awaits_of_isInLine (h : stage.isInLine = true) : ¬ stage.Awaits key := by
  cases stage <;> simp_all [isInLine, Awaits]

/-- Only behind the gate does a call ask the provider for anything. -/
theorem of_outside (h : stage.isInside = false) :
    ¬ stage.Ends key ∧ ¬ stage.Begins key ∧ ¬ stage.Wants key := by
  cases stage <;> simp_all [isInside, Ends, Begins, Wants]

theorem isInside_of_busy (h : stage.Ends key ∨ stage.Begins key ∨ stage.Wants key) :
    stage.isInside = true := by
  cases hinside : stage.isInside with
  | true => rfl
  | false =>
    rcases of_outside hinside with ⟨hends, hbegins, hwants⟩
    exact (h.elim hends (·.elim hbegins hwants)).elim

end Stage

namespace Service

/-! ## Outside the gate -/

/-- What a step of a call outside the gate does: the subscriptions stay as they are, and the call
waits at the gate with every fact that is followed now or no longer. -/
structure Changes (s : Service) (next : Service × Stage) : Prop where
  config : next.1.config = s.config
  subscribed : next.1.subscribed = s.subscribed
  gateTaken : next.1.gateTaken = s.gateTaken
  rooted : ∃ spare, next.1.engine.Rooted spare
  follows : ∀ key, ¬ next.2.Awaits key →
    next.1.engine.network.isSubscribed key = s.engine.network.isSubscribed key
  outside : next.2.isInside = false

theorem endPull_fst (s : Service) (reply : Option Reply)
    (result : Except ServiceError ActivationStatus) : (s.endPull reply result).1 = s := by
  unfold endPull
  split <;> rfl

theorem isInLine_endPull (s : Service) (reply : Option Reply)
    (result : Except ServiceError ActivationStatus) :
    (s.endPull reply result).2.isInLine = true := by
  unfold endPull
  split <;> rfl

theorem beginPull_fst (s : Service) (id : ConstraintId) (retries : Nat) (reply : Option Reply) :
    (s.beginPull id retries reply).1 = s := by
  unfold beginPull
  split
  · rfl
  · exact endPull_fst s reply _

theorem isInLine_beginPull (s : Service) (id : ConstraintId) (retries : Nat)
    (reply : Option Reply) : (s.beginPull id retries reply).2.isInLine = true := by
  unfold beginPull
  split
  · rfl
  · exact isInLine_endPull s reply _

theorem proceed_fst (s : Service) (reply : Reply) : (s.proceed reply).1 = s := by
  unfold proceed
  split
  · exact beginPull_fst s _ _ _
  · rfl

theorem isInLine_proceed (s : Service) (reply : Reply) :
    (s.proceed reply).2.isInLine = true := by
  unfold proceed
  split
  · exact isInLine_beginPull s _ _ _
  · rfl

theorem synchronize_fst (s : Service) (keys : List FactKey) (reply : Reply) :
    (s.synchronize keys reply).1 = s := by
  unfold synchronize
  split
  · exact proceed_fst s reply
  · rfl

theorem isInside_synchronize (s : Service) (keys : List FactKey) (reply : Reply) :
    (s.synchronize keys reply).2.isInside = false := by
  unfold synchronize
  split
  · exact Stage.isInside_of_isInLine (isInLine_proceed s reply)
  · rfl

/-- The call waits with all facts that have to be brought in line. -/
theorem not_mem_of_synchronize {s : Service} {keys : List FactKey} {reply : Reply} {key : FactKey}
    (h : ¬ (s.synchronize keys reply).2.Awaits key) : key ∉ keys := by
  unfold synchronize at h
  split at h
  · rename_i hnone
    rw [List.isEmpty_iff.1 hnone]
    exact List.not_mem_nil
  · exact h

/-- The service goes on with another engine and does not touch the subscriptions. -/
structure GoesOn (s : Service) (e : Engine) (after : Service) : Prop where
  engine : after.engine = e
  config : after.config = s.config
  subscribed : after.subscribed = s.subscribed
  gateTaken : after.gateTaken = s.gateTaken

section Engine

variable (s : Service)

theorem goesOn_register (c : Constraint) :
    s.GoesOn (s.engine.add c).1 (s.register c).1 ∧ (s.register c).2 = (s.engine.add c).2 := by
  unfold register
  dsimp only
  split <;> exact ⟨⟨rfl, rfl, rfl, rfl⟩, rfl⟩

theorem goesOn_unregister (id : ConstraintId) :
    s.GoesOn (s.engine.remove id).1 (s.unregister id).1 ∧
      (s.unregister id).2 = (s.engine.remove id).2 := by
  unfold unregister
  dsimp only
  split <;> exact ⟨⟨rfl, rfl, rfl, rfl⟩, rfl⟩

theorem goesOn_finishPull (plan : PullPlan) (news : List FactUpdate) (now : Occasion) :
    s.GoesOn (s.engine.perform (.applyPull plan news now)) (s.finishPull plan news now).1 := by
  unfold finishPull
  dsimp only
  split <;> exact ⟨rfl, rfl, rfl, rfl⟩

end Engine

namespace GoesOn

variable {s after : Service} {e : Engine}

/-- A step that changes nothing about what the network follows. -/
theorem changes (h : s.GoesOn e after) (hrooted : ∃ spare, e.Rooted spare)
    (hfollows : ∀ key, e.network.isSubscribed key = s.engine.network.isSubscribed key)
    {stage : Stage} (hstage : stage.isInside = false) : s.Changes (after, stage) where
  config := h.config
  subscribed := h.subscribed
  gateTaken := h.gateTaken
  rooted := h.engine ▸ hrooted
  follows key _ := by rw [h.engine, hfollows]
  outside := hstage

/-- A step after which the call waits with all facts that it concerns. -/
theorem synchronize (h : s.GoesOn e after) (hrooted : ∃ spare, e.Rooted spare)
    {keys : List FactKey} (hfollows : ∀ key, key ∉ keys →
      e.network.isSubscribed key = s.engine.network.isSubscribed key) (reply : Reply) :
    s.Changes (after.synchronize keys reply) where
  config := by rw [synchronize_fst, h.config]
  subscribed := by rw [synchronize_fst, h.subscribed]
  gateTaken := by rw [synchronize_fst, h.gateTaken]
  rooted := by rw [synchronize_fst, h.engine]; exact hrooted
  follows key hkey := by
    rw [synchronize_fst, h.engine]
    exact hfollows key (not_mem_of_synchronize hkey)
  outside := isInside_synchronize after keys reply

end GoesOn

section Changes

variable {s : Service} {spare : List NodeId}

/-- A registration waits at the gate with the facts whose following it has begun or ended. -/
theorem changes_beginAdd (h : s.engine.Rooted spare) (checked : Except Rejection Constraint) :
    s.Changes (s.beginAdd checked) := by
  cases checked with
  | error reason => exact ⟨rfl, rfl, rfl, ⟨spare, h⟩, fun _ _ => rfl, rfl⟩
  | ok c =>
    rcases s.goesOn_register c with ⟨hgoes, hreply⟩
    rcases hregister : s.register c with ⟨after, reply⟩
    rw [hregister] at hgoes hreply
    simp only [beginAdd, hregister]
    cases reply with
    | error reason =>
      have hsame : (s.engine.add c).1 = s.engine := Engine.add_of_error hreply.symm
      exact hgoes.changes (h.add c) (fun key => by rw [hsame]) rfl
    | ok registered =>
      have hfollows := (h.rebuilds_add hreply.symm).follows
      dsimp only
      split
      · rename_i hkind
        have hsame := Engine.add_of_unchanged hreply.symm hkind
        exact hgoes.changes (h.add c) (fun key => by rw [hsame]) rfl
      · exact hgoes.synchronize (h.add c) (fun key => hfollows.isSubscribed_eq) _
      · exact hgoes.synchronize (h.add c) (fun key => hfollows.isSubscribed_eq) _

/-- A removal waits at the gate with the facts whose following it has ended. -/
theorem changes_remove (h : s.engine.Rooted spare) (id : ConstraintId) :
    s.Changes (s.begin (.remove id)) := by
  rcases s.goesOn_unregister id with ⟨hgoes, hreply⟩
  rcases hunregister : s.unregister id with ⟨after, reply⟩
  rw [hunregister] at hgoes hreply
  simp only [begin, hunregister]
  cases reply with
  | error reason =>
    have hsame : (s.engine.remove id).1 = s.engine := by
      rcases h.remove_cases id with ⟨removed, hremoved, -⟩ | ⟨hremove, -⟩
      · rw [← hreply] at hremoved
        cases hremoved
      · exact congrArg Prod.fst hremove
    exact hgoes.changes ⟨spare, h.remove id⟩ (fun key => by rw [hsame]) rfl
  | ok removed =>
    have hfollows := (h.rebuilds_remove hreply.symm).follows
    exact hgoes.synchronize ⟨spare, h.remove id⟩ (fun key => hfollows.isSubscribed_eq) _

/-- The first step of a call. -/
theorem changes_begin (h : s.engine.Rooted spare) (request : Request) :
    s.Changes (s.begin request) := by
  cases request with
  | add c => exact changes_beginAdd h _
  | addText text => exact changes_beginAdd h _
  | remove id => exact changes_remove h id
  | check id =>
    have hsame := s.beginPull_fst id maxRetries none
    have hstage := s.isInLine_beginPull id maxRetries none
    simp only [begin]
    exact ⟨by rw [hsame], by rw [hsame], by rw [hsame], by rw [hsame]; exact ⟨spare, h⟩,
      fun _ _ => by rw [hsame], Stage.isInside_of_isInLine hstage⟩

theorem isSubscribed_pull (h : s.engine.Rooted spare) (plan : PullPlan) (news : List FactUpdate)
    (now : Occasion) (key : FactKey) :
    (s.engine.perform (.applyPull plan news now)).network.isSubscribed key =
      s.engine.network.isSubscribed key := by
  rcases s.engine.perform_applyPull plan news now with hafter | ⟨hafter, -⟩
  · rw [hafter, h.isSubscribed_apply]
  · rw [hafter]

/-- After a pull the call goes on with the service as the pull leaves it, and is in line. -/
theorem fetched_cases (s : Service) (plan : PullPlan) (retries : Nat) (reply : Option Reply)
    (news : List FactUpdate) (now : Occasion) :
    (s.fetched plan retries reply news now).1 = (s.finishPull plan news now).1 ∧
      (s.fetched plan retries reply news now).2.isInLine = true := by
  unfold fetched
  dsimp only
  split
  · exact ⟨endPull_fst _ _ _, isInLine_endPull _ _ _⟩
  · exact ⟨endPull_fst _ _ _, isInLine_endPull _ _ _⟩
  · exact ⟨beginPull_fst _ _ _ _, isInLine_beginPull _ _ _ _⟩
  · exact ⟨endPull_fst _ _ _, isInLine_endPull _ _ _⟩

theorem engine_begin_add {c : Constraint} (haccept : s.config.limits.accept c = .ok c) :
    (s.begin (.add c)).1.engine = (s.engine.add c).1 := by
  have hgoes := (s.goesOn_register c).1
  simp only [begin, haccept, beginAdd]
  split
  · exact hgoes.engine
  · split
    · exact hgoes.engine
    · rw [synchronize_fst, hgoes.engine]
    · rw [synchronize_fst, hgoes.engine]

theorem engine_begin_remove (id : ConstraintId) :
    (s.begin (.remove id)).1.engine = (s.engine.remove id).1 := by
  have hgoes := (s.goesOn_unregister id).1
  simp only [begin]
  split
  · exact hgoes.engine
  · rw [synchronize_fst, hgoes.engine]

/-- The end of a pull. -/
theorem changes_fetched (h : s.engine.Rooted spare) (plan : PullPlan) (retries : Nat)
    (reply : Option Reply) (news : List FactUpdate) (now : Occasion) :
    s.Changes (s.fetched plan retries reply news now) := by
  rcases s.fetched_cases plan retries reply news now with ⟨hsame, hstage⟩
  have hchanges := (s.goesOn_finishPull plan news now).changes (h.perform _)
    (isSubscribed_pull h plan news now) (Stage.isInside_of_isInLine hstage)
  rw [← hsame] at hchanges
  exact hchanges

end Changes

/-! ## Behind the gate -/

/-- What a step of a call behind the gate does: the engine and the subscriptions stay as they are,
and when the call leaves the gate, those facts are going to be subscribed for which the goal holds. -/
structure Aims (s : Service) (goal : FactKey → Prop) (next : Service × Stage) : Prop where
  config : next.1.config = s.config
  engine : next.1.engine = s.engine
  subscribed : next.1.subscribed = s.subscribed
  gateTaken : next.1.gateTaken = next.2.isInside
  awaits : ∀ key, ¬ next.2.Awaits key
  ends : ∀ key, next.2.Ends key → key ∈ s.subscribed
  begins : ∀ key, next.2.Begins key → key ∉ s.subscribed
  disjoint : ∀ key, next.2.Ends key → ¬ next.2.Wants key
  goal : ∀ key, goal key ↔ next.2.Wants key ∨ (key ∈ s.subscribed ∧ ¬ next.2.Ends key)

theorem Aims.of_iff {s : Service} {goal goal' : FactKey → Prop} {next : Service × Stage}
    (h : s.Aims goal next) (hgoal : ∀ key, goal' key ↔ goal key) : s.Aims goal' next :=
  { h with goal := fun key => (hgoal key).trans (h.goal key) }

section Gate

variable {s : Service}

theorem aims_leaveGate (s : Service) (reply : Reply) :
    s.Aims (· ∈ s.subscribed) (s.leaveGate reply) := by
  have hsame : (s.leaveGate reply).1 = { s with gateTaken := false } := proceed_fst _ reply
  have hstage : (s.leaveGate reply).2.isInLine = true := isInLine_proceed _ reply
  have houtside := Stage.isInside_of_isInLine hstage
  constructor
  · rw [hsame]
  · rw [hsame]
  · rw [hsame]
  · rw [hsame, houtside]
  · exact fun key => Stage.not_awaits_of_isInLine hstage
  · exact fun key hends => ((Stage.of_outside houtside).1 hends).elim
  · exact fun key hbegins => ((Stage.of_outside houtside).2.1 hbegins).elim
  · exact fun key hends => ((Stage.of_outside houtside).1 hends).elim
  · intro key
    have hquiet : ¬ (s.leaveGate reply).2.Ends key ∧ _ ∧ ¬ (s.leaveGate reply).2.Wants key :=
      Stage.of_outside houtside
    simp [hquiet.1, hquiet.2.2]

/-- What is wanted and not there is begun. -/
theorem aims_resubscribe (htaken : s.gateTaken = true) (wanted : List FactKey) (reply : Reply) :
    s.Aims (fun key => key ∈ wanted ∨ key ∈ s.subscribed) (s.resubscribe wanted reply) := by
  have hmissing : ∀ key, key ∈ wanted.filter (fun key => !s.subscribed.contains key) ↔
      key ∈ wanted ∧ key ∉ s.subscribed := by
    intro key
    rw [List.mem_filter, Bool.not_eq_true', ← Bool.not_eq_true, ← Std.TreeSet.mem_iff_contains]
  unfold resubscribe
  dsimp only
  generalize wanted.filter (fun key => !s.subscribed.contains key) = missing at hmissing ⊢
  split
  · rename_i hnone
    refine (aims_leaveGate s reply).of_iff ?_
    intro key
    have hkey := hmissing key
    rw [List.isEmpty_iff.1 hnone] at hkey
    simp only [List.not_mem_nil, false_iff, not_and, not_not] at hkey
    exact ⟨fun h => h.elim hkey id, Or.inr⟩
  · constructor
    · rfl
    · rfl
    · rfl
    · exact htaken
    · exact fun key => id
    · exact fun key => False.elim
    · exact fun key hbegins => ((hmissing key).1 hbegins).2
    · exact fun key => False.elim
    · intro key
      simp only [Stage.Wants, Stage.Ends, hmissing]
      tauto

/-- A call that enters the gate aims at the facts that the network follows, among its own; it leaves
the subscriptions of others as they are. -/
theorem aims_enterGate (s : Service) (keys : List FactKey) (reply : Reply) :
    { s with gateTaken := true }.Aims
      (fun key => if key ∈ keys then s.engine.network.isSubscribed key = true
        else key ∈ s.subscribed) (s.enterGate keys reply) := by
  unfold enterGate
  dsimp only
  rw [List.partition_eq_filter_filter]
  dsimp only
  have hwanted : ∀ key, key ∈ keys.filter s.engine.network.isSubscribed ↔
      key ∈ keys ∧ s.engine.network.isSubscribed key = true := fun key => List.mem_filter
  have hstale : ∀ key, key ∈ (keys.filter (not ∘ s.engine.network.isSubscribed)).filter
      s.subscribed.contains ↔
        key ∈ keys ∧ key ∈ s.subscribed ∧ ¬ s.engine.network.isSubscribed key = true := by
    simp [List.mem_filter]
  generalize keys.filter s.engine.network.isSubscribed = wanted at hwanted ⊢
  generalize (keys.filter (not ∘ s.engine.network.isSubscribed)).filter s.subscribed.contains =
    stale at hstale ⊢
  split
  · rename_i hnone
    refine (aims_resubscribe (s := { s with gateTaken := true }) rfl wanted reply).of_iff ?_
    intro key
    have hkey := hstale key
    rw [List.isEmpty_iff.1 hnone] at hkey
    simp only [hwanted]
    by_cases hmem : key ∈ keys <;> simp_all
  · constructor
    · rfl
    · rfl
    · rfl
    · rfl
    · exact fun key => id
    · exact fun key hends => ((hstale key).1 hends).2.1
    · exact fun key => False.elim
    · exact fun key hends hwants => ((hstale key).1 hends).2.2 ((hwanted key).1 hwants).2
    · intro key
      simp only [Stage.Wants, Stage.Ends, hwanted, hstale]
      by_cases hmem : key ∈ keys <;> simp_all

/-- The subscriptions that were to be ended have been, and those that are wanted are next. -/
theorem aims_unsubscribed (htaken : s.gateTaken = true) (keys wanted : List FactKey)
    (reply : Reply) :
    { s with subscribed := keys.foldl .erase s.subscribed }.Aims
      (fun key => key ∈ wanted ∨ (key ∈ s.subscribed ∧ key ∉ keys))
      (s.unsubscribed keys wanted reply true) := by
  have haims := aims_resubscribe (s := { s with subscribed := keys.foldl .erase s.subscribed })
    htaken wanted reply
  refine haims.of_iff ?_
  intro key
  rw [mem_foldl_erase]

/-- The subscriptions that were to be begun have been. -/
theorem aims_resubscribed (s : Service) (keys : List FactKey) (reply : Reply) :
    { s with subscribed := keys.foldl .insert s.subscribed }.Aims
      (fun key => key ∈ keys ∨ key ∈ s.subscribed) (s.resubscribed keys reply true) := by
  have haims := aims_leaveGate { s with subscribed := keys.foldl .insert s.subscribed } reply
  refine haims.of_iff ?_
  intro key
  exact mem_foldl_insert.symm

theorem stage_resubscribe (s : Service) (wanted : List FactKey) (reply : Reply) :
    (s.resubscribe wanted reply).2.isInLine = true ∨
      ∃ keys, (s.resubscribe wanted reply).2 = .subscribing keys reply := by
  unfold resubscribe
  dsimp only
  split
  · exact Or.inl (isInLine_proceed _ reply)
  · exact Or.inr ⟨_, rfl⟩

theorem stage_enterGate (s : Service) (keys : List FactKey) (reply : Reply) :
    (s.enterGate keys reply).2.isInLine = true ∨
      (∃ missing, (s.enterGate keys reply).2 = .subscribing missing reply) ∨
        ∃ stale wanted, (s.enterGate keys reply).2 = .unsubscribing stale wanted reply := by
  unfold enterGate
  dsimp only
  rw [List.partition_eq_filter_filter]
  dsimp only
  split
  · exact (stage_resubscribe _ _ reply).imp_right Or.inl
  · exact Or.inr (Or.inr ⟨_, _, rfl⟩)

end Gate

end Service
end Mandate
