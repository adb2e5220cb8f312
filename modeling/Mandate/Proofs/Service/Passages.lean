import Mandate.Proofs.Engine.History
import Mandate.Proofs.Engine.Pulling
import Mandate.Proofs.Service.Stages

/-!
# Passages of a call

What a call does between two waits, whatever the provider has answered, or failed to.  Its engine
performs one operation at most, publishes what queries are to see after it, and announces the
records.

Main results:

- Definition `Service.Continues`: how a call may go on.
- Definition `Service.Performs`, theorems `Service.exists_performs_begin`,
  `Service.Continues.exists_performs`: what a passage does to the service.
-/

namespace Mandate

/-- What the check says about the constraint that is to be registered. -/
def Request.checked? (limits : Limits) : Request → Option (Except Rejection Constraint)
  | .add c => some (limits.accept c)
  | .addText text => some (limits.decode text)
  | .remove _ | .check _ => none

/-- The identity that was registered before. -/
def Registration.old? : Registration → Option ConstraintId
  | .replaced old => some old
  | _ => none

namespace Engine

/-! ## Operations in a row -/

theorem returnedIn_append (e : Engine) (ops more : List Operation) :
    e.returnedIn (ops ++ more) = e.returnedIn ops ++ (e.run ops).returnedIn more := by
  unfold returnedIn
  rw [trace_append, List.flatMap_append]

theorem returnedIn_singleton (e : Engine) (op : Operation) :
    e.returnedIn [op] = e.returned op := by
  simp [returnedIn, trace]

/-- A pull finds its constraint gone, or registered again, or is applied. -/
theorem applyPull_cases (e : Engine) (plan : PullPlan) (news : List FactUpdate) (now : Occasion) :
    (e.productions[plan.id]? = none ∧
        e.applyPull plan news now = (e, .error (.notFound plan.id))) ∨
      e.applyPull plan news now = (e, .ok .superseded) ∨
        ∃ status batch, (e.applyPull plan news now).2 = .ok (.applied status batch) := by
  cases hp : e.productions[plan.id]? with
  | none => exact Or.inl ⟨rfl, applyPull_of_none hp news now⟩
  | some p =>
    by_cases heq : p.generation = plan.generation
    · rcases exists_right_of_rel (settles_apply e (news.filter (isFresh e.network plan))
        (some plan.id) now plan.id) hp with ⟨q, hq, -⟩
      right
      right
      exists q.status, (e.apply (news.filter (isFresh e.network plan)) (some plan.id) now).2
      simp only [applyPull, hp, if_pos heq, hq]
    · exact Or.inr (Or.inl (applyPull_of_ne hp heq news now))

end Engine

namespace Service

/-- How a call may go on.  The provider ends or begins subscriptions, or refuses to, and answers to
fetches or fails to do so in time; whatever news that has brought, the call applies them. -/
inductive Continues (s : Service) : Stage → Service × Stage → Prop
  /-- The gate is open. -/
  | enterGate {keys : List FactKey} {reply : Reply} (hopen : s.gateTaken = false) :
      Continues s (.gate keys reply) (s.enterGate keys reply)
  | unsubscribed {keys wanted : List FactKey} {reply : Reply} (agreed : Bool) :
      Continues s (.unsubscribing keys wanted reply) (s.unsubscribed keys wanted reply agreed)
  | resubscribed {keys : List FactKey} {reply : Reply} (agreed : Bool) :
      Continues s (.subscribing keys reply) (s.resubscribed keys reply agreed)
  | fetched {plan : PullPlan} {retries : Nat} {reply : Option Reply} (news : List FactUpdate)
      (now : Occasion) :
      Continues s (.pulling plan retries reply) (s.fetched plan retries reply news now)

/-! ## What the engine performs -/

/-- The engine has performed some operations; what queries are to see then is published, if it was
before, and the records are announced. -/
structure Performs (s : Service) (ops : List Operation) (after : Service) : Prop where
  config : after.config = s.config
  engine : after.engine = s.engine.run ops
  snapshot : s.snapshot = s.engine.snapshot → after.snapshot = after.engine.snapshot
  announced : after.announced = s.announced ++ s.engine.returnedIn ops

section Performs

variable {s after later : Service} {ops more : List Operation}

/-- Nothing is performed when nothing changes but the subscriptions, the gate, and the reports. -/
theorem performs_nothing (s : Service) (subscribed : Std.TreeSet FactKey) (gateTaken : Bool)
    (journal : List Event) : s.Performs [] { s with subscribed, gateTaken, journal } where
  config := rfl
  engine := rfl
  snapshot hsnapshot := hsnapshot
  announced := (List.append_nil s.announced).symm

theorem Performs.trans (h : s.Performs ops after) (hmore : after.Performs more later) :
    s.Performs (ops ++ more) later where
  config := hmore.config.trans h.config
  engine := by rw [hmore.engine, h.engine, Engine.run_append]
  snapshot hsnapshot := hmore.snapshot (h.snapshot hsnapshot)
  announced := by
    rw [hmore.announced, h.announced, h.engine, Engine.returnedIn_append, List.append_assoc]

/-- A registration succeeds, or changes nothing but the reports. -/
theorem register_cases (s : Service) (c : Constraint) :
    (∃ registered, (s.engine.add c).2 = .ok registered ∧ (s.register c).2 = .ok registered ∧
        s.Performs [.add c] (s.register c).1) ∨
      ∃ error journal, (s.engine.add c).2 = .error error ∧
        s.register c = ({ s with journal }, .error error) := by
  unfold register
  dsimp only
  split
  · rename_i registered hreply
    refine Or.inl ⟨registered, hreply, hreply, rfl, rfl, fun _ => rfl, ?_⟩
    rw [Engine.returnedIn_singleton]
    exact (List.append_nil s.announced).symm
  · rename_i error hreply
    right
    exists error, (s.report ((s.engine.add c).1.eventsOfAdd c (s.engine.add c).2)).journal, hreply
    rw [Engine.add_of_error hreply, hreply]
    rfl

/-- A removal succeeds, or finds nothing and changes nothing but the reports. -/
theorem unregister_cases (s : Service) (id : ConstraintId) :
    (∃ removed, (s.engine.remove id).2 = .ok removed ∧ (s.unregister id).2 = .ok removed ∧
        s.Performs [.remove id] (s.unregister id).1) ∨
      ∃ journal, s.engine.productions[id]? = none ∧
        s.unregister id = ({ s with journal }, .error (.notFound id)) := by
  cases hp : s.engine.productions[id]? with
  | none =>
    right
    exists (s.report (s.engine.eventsOfRemove id (.error (.notFound id)))).journal, rfl
    unfold unregister
    rw [Engine.remove_of_none hp]
    rfl
  | some p =>
    have hreply : (s.engine.remove id).2 = .ok (s.engine.withdraw p).2 := by
      simp only [Engine.remove, hp]
    refine Or.inl ⟨_, hreply, ?_, ?_⟩
    · rw [(s.goesOn_unregister id).2, hreply]
    · unfold unregister
      dsimp only
      rw [hreply]
      refine ⟨rfl, rfl, fun _ => rfl, ?_⟩
      rw [Engine.returnedIn_singleton]
      exact (List.append_nil s.announced).symm

/-- A pull finds its constraint gone, or registered again, and changes nothing; or it is applied. -/
theorem finishPull_cases (s : Service) (plan : PullPlan) (news : List FactUpdate) (now : Occasion) :
    (s.engine.productions[plan.id]? = none ∧
        s.finishPull plan news now = (s, .error (.notFound plan.id))) ∨
      s.finishPull plan news now = (s, .ok .superseded) ∨
        ∃ status batch, (s.finishPull plan news now).2 = .ok (.applied status batch) ∧
          s.Performs [.applyPull plan news now] (s.finishPull plan news now).1 := by
  unfold finishPull
  rcases s.engine.applyPull_cases plan news now with
    ⟨hgone, hpull⟩ | hpull | ⟨status, batch, hpull⟩
  · rw [hpull]
    exact Or.inl ⟨hgone, rfl⟩
  · rw [hpull]
    exact Or.inr (Or.inl rfl)
  · have hreturned : s.engine.returned (.applyPull plan news now) = batch.records := by
      simp only [Engine.returned, hpull]
    dsimp only
    rw [hpull]
    refine Or.inr (Or.inr ⟨status, batch, rfl, rfl, rfl, fun _ => rfl, ?_⟩)
    rw [Engine.returnedIn_singleton, hreturned]
    rfl

theorem performs_updateFacts (s : Service) (news : List FactUpdate) (now : Occasion) :
    s.Performs [.applyFacts news now] (s.updateFacts news now).1 where
  config := rfl
  engine := rfl
  snapshot _ := rfl
  announced := by
    rw [Engine.returnedIn_singleton]
    rfl

end Performs

/-! ## Behind the gate -/

section Gate

variable {s : Service} {keys wanted : List FactKey} {reply : Reply} {agreed : Bool}

/-- A step at or behind the gate changes nothing but the subscriptions and the gate, and keeps the
gate only if the call goes on behind it. -/
structure KeepsTo (s : Service) (next : Service × Stage) : Prop where
  same : ∃ subscribed gateTaken, next.1 = { s with subscribed, gateTaken }
  gateTaken : next.1.gateTaken = true → next.2.isInside = true

theorem keepsTo_leaveGate (s : Service) (reply : Reply) : s.KeepsTo (s.leaveGate reply) := by
  have hsame : (s.leaveGate reply).1 = { s with gateTaken := false } := proceed_fst _ reply
  refine ⟨⟨s.subscribed, false, hsame⟩, fun htaken => ?_⟩
  rw [hsame] at htaken
  cases htaken

theorem keepsTo_resubscribe (s : Service) (wanted : List FactKey) (reply : Reply) :
    s.KeepsTo (s.resubscribe wanted reply) := by
  unfold resubscribe
  dsimp only
  split
  · exact keepsTo_leaveGate s reply
  · exact ⟨⟨s.subscribed, s.gateTaken, rfl⟩, fun _ => rfl⟩

theorem KeepsTo.of_same {before : Service} {next : Service × Stage} (h : before.KeepsTo next)
    (hsame : ∃ subscribed gateTaken, before = { s with subscribed, gateTaken }) :
    s.KeepsTo next := by
  rcases hsame with ⟨subscribed, gateTaken, rfl⟩
  exact ⟨h.same, h.gateTaken⟩

theorem keepsTo_enterGate (s : Service) (keys : List FactKey) (reply : Reply) :
    s.KeepsTo (s.enterGate keys reply) := by
  unfold enterGate
  dsimp only
  split
  · exact (keepsTo_resubscribe _ _ reply).of_same ⟨s.subscribed, true, rfl⟩
  · exact ⟨⟨s.subscribed, true, rfl⟩, fun _ => rfl⟩

theorem keepsTo_unsubscribed (s : Service) (keys wanted : List FactKey) (reply : Reply)
    (agreed : Bool) : s.KeepsTo (s.unsubscribed keys wanted reply agreed) := by
  cases agreed with
  | false => exact keepsTo_resubscribe s wanted reply
  | true =>
    exact (keepsTo_resubscribe _ wanted reply).of_same
      ⟨keys.foldl .erase s.subscribed, s.gateTaken, rfl⟩

theorem keepsTo_resubscribed (s : Service) (keys : List FactKey) (reply : Reply) (agreed : Bool) :
    s.KeepsTo (s.resubscribed keys reply agreed) := by
  cases agreed with
  | false => exact keepsTo_leaveGate s reply
  | true =>
    exact (keepsTo_leaveGate _ reply).of_same
      ⟨keys.foldl .insert s.subscribed, s.gateTaken, rfl⟩

theorem KeepsTo.performs {next : Service × Stage} (h : s.KeepsTo next) : s.Performs [] next.1 := by
  rcases h.same with ⟨subscribed, gateTaken, hsame⟩
  rw [hsame]
  exact performs_nothing s subscribed gateTaken s.journal

end Gate

/-! ## What a passage does -/

section Passages

variable {s : Service} {stage : Stage} {next : Service × Stage}

/-- A call that goes on brings subscriptions in line, or ends a pull. -/
theorem Continues.cases (h : s.Continues stage next) :
    (stage.isInLine = false ∧ s.KeepsTo next) ∨
      ∃ plan retries reply news now, stage = .pulling plan retries reply ∧
        next = s.fetched plan retries reply news now := by
  cases h with
  | enterGate _ => exact Or.inl ⟨rfl, keepsTo_enterGate s _ _⟩
  | unsubscribed agreed => exact Or.inl ⟨rfl, keepsTo_unsubscribed s _ _ _ agreed⟩
  | resubscribed agreed => exact Or.inl ⟨rfl, keepsTo_resubscribed s _ _ agreed⟩
  | fetched news now => exact Or.inr ⟨_, _, _, news, now, rfl, rfl⟩

theorem exists_performs_fetched (s : Service) (plan : PullPlan) (retries : Nat)
    (reply : Option Reply) (news : List FactUpdate) (now : Occasion) :
    ∃ ops, s.Performs ops (s.fetched plan retries reply news now).1 ∧ ∀ c, .add c ∉ ops := by
  rw [(s.fetched_cases plan retries reply news now).1]
  rcases s.finishPull_cases plan news now with ⟨-, hpull⟩ | hpull | ⟨status, batch, -, hperforms⟩
  · rw [hpull]
    exact ⟨[], performs_nothing s s.subscribed s.gateTaken s.journal, fun c => List.not_mem_nil⟩
  · rw [hpull]
    exact ⟨[], performs_nothing s s.subscribed s.gateTaken s.journal, fun c => List.not_mem_nil⟩
  · exact ⟨_, hperforms, fun c hc => nomatch List.mem_singleton.1 hc⟩

/-- A call that has begun registers nothing any more. -/
theorem Continues.exists_performs (h : s.Continues stage next) :
    ∃ ops, s.Performs ops next.1 ∧ ∀ c, .add c ∉ ops := by
  rcases h.cases with ⟨-, hkeeps⟩ | ⟨plan, retries, reply, news, now, -, rfl⟩
  · exact ⟨[], hkeeps.performs, fun c => List.not_mem_nil⟩
  · exact s.exists_performs_fetched plan retries reply news now

/-- When a registration begins, the constraint is registered if it passes the check. -/
theorem exists_performs_beginAdd (s : Service) (checked : Except Rejection Constraint) :
    ∃ ops, s.Performs ops (s.beginAdd checked).1 ∧ ∀ c, .add c ∈ ops → checked = .ok c := by
  cases checked with
  | error reason =>
    exact ⟨[], performs_nothing s s.subscribed s.gateTaken s.journal,
      fun c hc => (List.not_mem_nil hc).elim⟩
  | ok c =>
    rcases s.register_cases c with ⟨registered, -, hreply, hperforms⟩ | ⟨error, journal, -, hsame⟩
    · refine ⟨[.add c], ?_, ?_⟩
      · simp only [beginAdd, hreply]
        split
        · exact hperforms
        · rw [synchronize_fst]
          exact hperforms
        · rw [synchronize_fst]
          exact hperforms
      · intro d hd
        rw [List.mem_singleton, Operation.add.injEq] at hd
        rw [hd]
    · refine ⟨[], ?_, fun d hd => (List.not_mem_nil hd).elim⟩
      simp only [beginAdd, hsame]
      exact performs_nothing s s.subscribed s.gateTaken journal

/-- When a call begins, it performs one operation at most, and registers no other constraint than
the one that is asked for. -/
theorem exists_performs_begin (s : Service) (request : Request) :
    ∃ ops, s.Performs ops (s.begin request).1 ∧
      ∀ c, .add c ∈ ops → request.checked? s.config.limits = some (.ok c) := by
  cases request with
  | add c =>
    rcases s.exists_performs_beginAdd (s.config.limits.accept c) with ⟨ops, hperforms, hops⟩
    exact ⟨ops, hperforms, fun d hd => congrArg some (hops d hd)⟩
  | addText text =>
    rcases s.exists_performs_beginAdd (s.config.limits.decode text) with ⟨ops, hperforms, hops⟩
    exact ⟨ops, hperforms, fun d hd => congrArg some (hops d hd)⟩
  | remove id =>
    rcases s.unregister_cases id with ⟨removed, -, hreply, hperforms⟩ | ⟨journal, -, hsame⟩
    · refine ⟨[.remove id], ?_, fun c hc => nomatch List.mem_singleton.1 hc⟩
      simp only [begin, hreply]
      rw [synchronize_fst]
      exact hperforms
    · refine ⟨[], ?_, fun c hc => (List.not_mem_nil hc).elim⟩
      simp only [begin, hsame]
      exact performs_nothing s s.subscribed s.gateTaken journal
  | check id =>
    refine ⟨[], ?_, fun c hc => (List.not_mem_nil hc).elim⟩
    simp only [begin]
    rw [beginPull_fst]
    exact performs_nothing s s.subscribed s.gateTaken s.journal

end Passages

end Service
end Mandate
