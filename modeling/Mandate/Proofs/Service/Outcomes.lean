import Mandate.Proofs.Engine.Agreement
import Mandate.Proofs.Service.Convergence
import Mandate.Proofs.Service.Traffic

/-!
# Outcomes of calls

Whatever else is going on and whatever the provider does, a registration is refused when it begins,
and then it has changed nothing and has asked for nothing; or it succeeds.  A removal or a check fails
only when nothing is registered under the identity.  No call fails because a constraint cannot be
compiled.

Main results:

- Definition `Story.Untouched`: the call has left no trace but reports.
- Definition `Story.Registers`, theorem `Traffic.registers_of_checked`: what becomes of a registration.
- Theorems `Traffic.story_of_remove`, `Traffic.story_of_check`: what becomes of a removal and of a
  check.
- Theorem `Traffic.ne_notCompiled`: no call fails because a constraint cannot be compiled.
- Theorem `Traffic.admissible_is_compiled`: what the check lets through is compiled.
- Theorem `Traffic.exists_done`: every call can come to its end.
- Theorem `Traffic.calls_all_or_nothing`: the outcomes of calls.
-/

namespace Mandate

namespace Story

/-- The call has changed nothing but the reports, and has asked the provider for nothing. -/
def Untouched (story : Story) : Prop :=
  ∀ p ∈ story.passages, (∃ journal, p.after = { p.before with journal }) ∧ p.stage.asks = false

/-- What becomes of a registration. -/
inductive Registers (story : Story) (checked : Except Rejection Constraint) : Prop
  /-- The constraint was registered when the call began, and the reply is settled. -/
  | registered {c : Constraint} {registered : Registered} (hchecked : checked = .ok c)
      (hadd : (story.first.before.engine.add c).2 = .ok registered)
      (hreplies : story.stage.Replies (.registered registered.id registered.kind.old?))
  /-- The constraint is not admissible. -/
  | rejected {reason : Rejection} (hchecked : checked = .error reason)
      (hstage : story.stage = .done (.error (.rejected reason))) (huntouched : story.Untouched)
  /-- The permission had another constraint when the call began. -/
  | duplicate {c : Constraint} {existing : ConstraintId} (hchecked : checked = .ok c)
      (hadd : (story.first.before.engine.add c).2 = .error (.duplicate c.permission existing))
      (hstage : story.stage = .done (.error (.duplicate c.permission existing)))
      (huntouched : story.Untouched)

variable {story : Story} {s : Service} {next : Service × Stage} {request : Request}

theorem not_continues_of_done {outcome : Outcome} (hstage : story.stage = .done outcome) :
    ¬ s.Continues story.stage next := by
  rw [hstage]
  exact nofun

theorem untouched_begin {journal : List Event} {outcome : Outcome}
    (h : s.begin request = ({ s with journal }, .done outcome)) :
    (Story.begin s request).Untouched := by
  intro p hp
  rcases mem_passages_iff.1 hp with hearlier | rfl
  · exact (List.not_mem_nil hearlier).elim
  · simp only [Story.begin, h]
    exact ⟨⟨journal, rfl⟩, rfl⟩

theorem registers_begin {checked : Except Rejection Constraint}
    (hchecked : request.checked? s.config.limits = some checked) :
    (Story.begin s request).Registers checked := by
  have hbegin := Service.begin_of_checked hchecked
  rcases s.beginAdd_cases checked with
    ⟨c, registered, rfl, hadd, hreplies⟩ | ⟨error, journal, hdone, hreason⟩
  · rw [← hbegin] at hreplies
    exact .registered rfl hadd hreplies
  · rw [← hbegin] at hdone
    have hstage : (Story.begin s request).stage = .done (.error error) := congrArg Prod.snd hdone
    rcases hreason with ⟨reason, rfl, rfl⟩ | ⟨c, rfl, hadd⟩
    · exact .rejected rfl hstage (untouched_begin hdone)
    · rcases Engine.exists_duplicate (Service.check_of_checked hchecked) hadd with ⟨existing, rfl⟩
      exact .duplicate rfl hadd hstage (untouched_begin hdone)

theorem Registers.goOn {checked : Except Rejection Constraint} (h : story.Registers checked)
    (hnext : s.Continues story.stage next) : (story.goOn s next).Registers checked := by
  cases h with
  | registered hchecked hadd hreplies =>
    have hfirst : (story.goOn s next).first = story.first := first_goOn
    rw [← hfirst] at hadd
    exact .registered hchecked hadd (hnext.replies hreplies)
  | rejected _ hstage _ => exact (not_continues_of_done hstage hnext).elim
  | duplicate _ _ hstage _ => exact (not_continues_of_done hstage hnext).elim

end Story

namespace Traffic

section Outcomes

variable {config : EngineConfig} {w : Traffic} {id : CallId} {story : Story}

/-- A registration succeeds, or has left no trace. -/
theorem registers_of_checked (h : (start config).Reaches w) (hid : w.calls id = some story)
    {checked : Except Rejection Constraint}
    (hchecked : story.request.checked? config.limits = some checked) :
    story.Registers checked := by
  refine story_induction (P := fun story => story.request.checked? config.limits = some checked →
    story.Registers checked) ?_ ?_ h hid hchecked
  · intro s ops request hperforms hchecked
    have hconfig : s.config = config := hperforms.config
    exact Story.registers_begin (hconfig ▸ hchecked)
  · exact fun s ops story next _ ih hnext hchecked => (ih hchecked).goOn hnext

/-- Where nothing is produced under an identity, nothing is registered. -/
theorem get?_eq_none {s : Service} {ops : List Operation} {target : ConstraintId}
    (hperforms : (Service.ofConfig config).Performs ops s)
    (hgone : s.engine.productions[target]? = none) : s.engine.registry.get? target = none := by
  rcases Engine.rooted_run config.registry ops with ⟨spare, hrooted⟩
  have hengine : s.engine = (Engine.initial config.registry).run ops := hperforms.engine
  rw [hengine] at hgone ⊢
  exact hrooted.get?_eq_none_iff.2 hgone

/-- A removal succeeds, or has found nothing registered. -/
theorem story_of_remove (h : (start config).Reaches w) (hid : w.calls id = some story)
    {target : ConstraintId} (hrequest : story.request = .remove target) :
    (∃ c, story.stage.Replies (.removed c)) ∨
      (story.stage = .done (.error (.notFound target)) ∧
        story.last.before.engine.registry.get? target = none) := by
  refine story_induction (P := fun story => story.request = .remove target →
    (∃ c, story.stage.Replies (.removed c)) ∨
      (story.stage = .done (.error (.notFound target)) ∧
        story.last.before.engine.registry.get? target = none)) ?_ ?_ h hid hrequest
  · rintro s ops request hperforms hrequest
    obtain rfl : request = .remove target := hrequest
    rcases s.remove_cases target with ⟨removed, -, hreplies⟩ | ⟨hstage, hgone⟩
    · exact Or.inl ⟨_, hreplies⟩
    · exact Or.inr ⟨hstage, get?_eq_none hperforms hgone⟩
  · intro s ops story next _ ih hnext hrequest
    rcases ih hrequest with ⟨c, hreplies⟩ | ⟨hstage, -⟩
    · exact Or.inl ⟨c, hnext.replies hreplies⟩
    · exact (Story.not_continues_of_done hstage hnext).elim

/-- A check tells a status, or has found nothing registered. -/
theorem story_of_check (h : (start config).Reaches w) (hid : w.calls id = some story)
    {target : ConstraintId} (hrequest : story.request = .check target) :
    story.stage.Checks target ∧ ∀ error, story.stage = .done (.error error) →
      story.last.before.engine.registry.get? target = none := by
  refine story_induction (P := fun story => story.request = .check target →
    story.stage.Checks target ∧ ∀ error, story.stage = .done (.error error) →
      story.last.before.engine.registry.get? target = none) ?_ ?_ h hid hrequest
  · rintro s ops request hperforms hrequest
    obtain rfl : request = .check target := hrequest
    rcases s.checks_beginPull target maxRetries with ⟨hchecks, hgone⟩
    exact ⟨hchecks, fun error hstage => get?_eq_none hperforms (hgone error hstage)⟩
  · intro s ops story next hperforms ih hnext hrequest
    rcases hnext.checks (ih hrequest).1 with ⟨hchecks, hgone⟩
    exact ⟨hchecks, fun error hstage => get?_eq_none hperforms (hgone error hstage)⟩

/-! ## The end of a call -/

/-- The call behind the gate can leave it while all others wait. -/
theorem exists_open (h : (start config).Reaches w) :
    ∃ later, w.Reaches later ∧ later.service.gateTaken = false ∧
      ∀ id story, w.calls id = some story → story.stage.isInside = false →
        later.calls id = some story := by
  cases htaken : w.service.gateTaken with
  | false => exact ⟨w, .refl, htaken, fun _ _ hid _ => hid⟩
  | true =>
    rcases exists_inside h htaken with ⟨holder, story, hholder, hinside⟩
    generalize hremaining : story.stage.remaining = remaining
    -- the call behind the gate goes on until it has left it
    induction remaining using Nat.strongRecOn generalizing w story with
    | ind remaining ih =>
      rcases w.service.exists_continues_of_isInside hinside with ⟨next, hnext⟩
      have hstep := Step.goOn hholder hnext
      have hless : next.2.remaining < remaining := hremaining ▸ hnext.remaining_lt
      have hothers : ∀ id story', w.calls id = some story' → story'.stage.isInside = false →
          (w.record holder (story.goOn w.service next)).calls id = some story' := by
        intro id story' hid houtside
        have hne : id ≠ holder := by
          rintro rfl
          rw [hholder, Option.some.injEq] at hid
          rw [← hid, hinside] at houtside
          cases houtside
        rw [calls_record, if_neg hne, hid]
      have hkeeps : next.1.gateTaken = true → next.2.isInside = true := by
        rcases hnext.cases with ⟨-, hkeeps⟩ | ⟨plan, retries, reply, news, now, hstage, -⟩
        · exact hkeeps.gateTaken
        · rw [hstage] at hinside
          cases hinside
      cases hafter : next.1.gateTaken with
      | false => exact ⟨_, .single hstep, hafter, hothers⟩
      | true =>
        rcases ih _ hless (h.tail hstep) hafter (story.goOn w.service next)
          (calls_record_self w holder _) (hkeeps hafter) rfl with ⟨later, hlater, hopen, hsame⟩
        exact ⟨later, .head hstep hlater, hopen, fun id story' hid houtside =>
          hsame id story' (hothers id story' hid houtside) houtside⟩

/-- Every call can come to its end. -/
theorem exists_done (h : (start config).Reaches w) (hid : w.calls id = some story) :
    ∃ later story', w.Reaches later ∧ later.calls id = some story' ∧
      story'.stage.isDone = true ∧ story'.request = story.request ∧ story'.first = story.first := by
  generalize hremaining : story.stage.remaining = remaining
  induction remaining using Nat.strongRecOn generalizing w story with
  | ind remaining ih =>
    cases hdone : story.stage.isDone with
    | true => exact ⟨w, story, .refl, hid, hdone, rfl, rfl⟩
    | false =>
      -- if the call waits at the gate, the one behind it leaves first
      have hready : ∃ middle, w.Reaches middle ∧ middle.calls id = some story ∧
          ∃ next, middle.service.Continues story.stage next := by
        rcases can_go_on h hid hdone with ⟨story', next, hid', hnext⟩ | ⟨keys, reply, _, _, hgate, -⟩
        · rw [hid, Option.some.injEq] at hid'
          exact ⟨w, .refl, hid, next, hid' ▸ hnext⟩
        · rcases exists_open h with ⟨middle, hmiddle, hopen, hsame⟩
          refine ⟨middle, hmiddle, hsame id story hid (by rw [hgate]; rfl), ?_⟩
          exact Service.exists_continues hdone fun _ _ _ => hopen
      rcases hready with ⟨middle, hmiddle, hid', next, hnext⟩
      have hstep := Step.goOn hid' hnext
      have hless : next.2.remaining < remaining := hremaining ▸ hnext.remaining_lt
      have hself := calls_record_self middle id (story.goOn middle.service next)
      rcases ih _ hless ((h.trans hmiddle).tail hstep) hself rfl with
        ⟨later, story', hlater, hthere, hend, hrequest, hfirst⟩
      exact ⟨later, story', hmiddle.trans (.head hstep hlater), hthere, hend, hrequest,
        hfirst.trans Story.first_goOn⟩

/-- A call that has ended does nothing any more. -/
theorem Reaches.calls_of_done {later : Traffic} {outcome : Outcome} (h : w.Reaches later)
    (hid : w.calls id = some story) (hstage : story.stage = .done outcome) :
    later.calls id = some story := by
  induction h with
  | refl => exact hid
  | @tail before after _ hstep ih =>
    cases hstep with
    | @begin other hnone request =>
      have hne : id ≠ other := by
        rintro rfl
        rw [hnone] at ih
        cases ih
      rw [ask, calls_record, if_neg hne, ih]
    | @goOn other story' next hthere hnext =>
      have hne : id ≠ other := by
        rintro rfl
        rw [ih, Option.some.injEq] at hthere
        exact Story.not_continues_of_done (hthere ▸ hstage) hnext
      rw [calls_record, if_neg hne, ih]
    | pushed news now => exact ih
    | reported journal => exact ih

/-! ## What the check lets through -/

/-- No call fails because a constraint cannot be compiled. -/
theorem ne_notCompiled (h : (start config).Reaches w) (hid : w.calls id = some story)
    (target : ConstraintId) (reason : CompileError) :
    story.stage ≠ .done (.error (.notCompiled target reason)) := by
  intro hstage
  have hregisters : ∀ checked, story.request.checked? config.limits = some checked → False := by
    intro checked hchecked
    cases registers_of_checked h hid hchecked with
    | registered _ _ hreplies =>
      rw [hstage] at hreplies
      cases hreplies
    | rejected _ hstage' _ =>
      rw [hstage] at hstage'
      cases hstage'
    | duplicate _ _ hstage' _ =>
      rw [hstage] at hstage'
      cases hstage'
  cases hrequest : story.request with
  | add c => exact hregisters (config.limits.accept c) (by rw [hrequest]; rfl)
  | addText text => exact hregisters (config.limits.decode text) (by rw [hrequest]; rfl)
  | remove target' =>
    rcases story_of_remove h hid hrequest with ⟨c, hreplies⟩ | ⟨hdone, -⟩
    · rw [hstage] at hreplies
      cases hreplies
    · rw [hstage] at hdone
      cases hdone
  | check target' =>
    have hchecks := (story_of_check h hid hrequest).1
    rw [hstage] at hchecks
    rcases hchecks with ⟨status, hstatus⟩ | hnotFound
    · cases hstatus
    · cases hnotFound

/-- An admissible constraint has a circuit by the rules, none of which makes do with a constant in
the place of a literal or a fact; this circuit computes its truth, and is built in every network.
And whatever the bounds on admissible constraints and whatever has happened, no call fails because a
constraint cannot be compiled. -/
theorem admissible_is_compiled {limits : Limits} {c : Constraint} (hcheck : limits.check c = none) :
    (∃ circuit, c.Lowers circuit ∧ c.lower = .ok circuit ∧
      (∀ facts, circuit.value facts = Value.ofBool? (c.evaluate facts)) ∧
      ∀ net : Network, net.compile c = .ok (net.build circuit)) ∧
    ∀ (config : EngineConfig) (w : Traffic), (start config).Reaches w →
      ∀ id story, w.calls id = some story → ∀ target reason,
        story.stage ≠ .done (.error (.notCompiled target reason)) := by
  refine ⟨?_, fun config w h id story hid => ne_notCompiled h hid⟩
  rcases Limits.exists_circuit hcheck with ⟨circuit, hlowers, hcompile⟩
  exact ⟨circuit, hlowers, (c.lower_eq_ok_iff circuit).2 hlowers, hlowers.value_eq, hcompile⟩

/-- The constraint that the operations within `3600 - 600` blocks are twenty at most. -/
def metered : Constraint :=
  ⟨⟨"p"⟩, .base (.rateLimit (.literal ⟨20, by decide⟩)
    (.sub (.literal ⟨3600, by decide⟩) (.literal ⟨600, by decide⟩)))⟩

/-- The number of operations is compared with the limit. -/
def meteredCircuit : Circuit :=
  .binary (.compare .lte) (.fact (.operationCount ⟨"p"⟩ ⟨3000, by decide⟩)) (.leaf (.literal 20))

theorem metered_lowers : metered.Lowers meteredCircuit :=
  .base (.rateLimit (by decide) (.literal (by decide)))

/-- The period is computed, and the constraint is compiled in every network and by every service. -/
theorem metered_is_compiled :
    Limits.standard.check metered = none ∧
      (∀ net : Network, net.compile metered = .ok (net.build meteredCircuit)) ∧
      ∀ w id story, (start {}).Reaches w → w.calls id = some story →
        story.request = .add metered → ∀ target reason,
          story.stage ≠ .done (.error (.notCompiled target reason)) := by
  have hcheck : Limits.standard.check metered = none := by decide
  rcases admissible_is_compiled hcheck with ⟨⟨circuit, hlowers, -, -, hcompile⟩, hcalls⟩
  rw [hlowers.unique metered_lowers] at hcompile
  exact ⟨hcheck, hcompile, fun w id story h hid _ => hcalls {} w h id story hid⟩

/-! ## The outcomes -/

/-- Whatever has happened, a registration that has failed was not admissible, or found another
constraint of its permission, and has left no trace; once the engine has accepted the constraint, it
ends with the reply that is settled then.  A check or a removal that has failed has found nothing
registered when it asked the engine last.  And a call takes seven passages at most, and never gets
stuck: it can go on, or waits at the gate for one that can. -/
theorem calls_all_or_nothing (h : (start config).Reaches w) (hid : w.calls id = some story) :
    (∀ checked, story.request.checked? config.limits = some checked →
      (∀ error, story.stage = .done (.error error) →
        ((∃ reason, checked = .error reason ∧ error = .rejected reason) ∨
          ∃ c existing, checked = .ok c ∧ error = .duplicate c.permission existing) ∧
        story.Untouched) ∧
      ∀ c registered, checked = .ok c → (story.first.before.engine.add c).2 = .ok registered →
        ∀ outcome, story.stage = .done outcome →
          outcome = .ok (.registered registered.id registered.kind.old?)) ∧
    (∀ target, story.request = .check target ∨ story.request = .remove target →
      ∀ error, story.stage = .done (.error error) → error = .notFound target ∧
        story.last.before.engine.registry.get? target = none) ∧
    story.passages.length ≤ 7 ∧
    (story.stage.isDone = false → w.CanGoOn id ∨
      ∃ keys reply other story', story.stage = .gate keys reply ∧ w.calls other = some story' ∧
        story'.stage.isInside = true ∧ w.CanGoOn other) := by
  refine ⟨fun checked hchecked => ?_, ?_, ?_, can_go_on h hid⟩
  · cases registers_of_checked h hid hchecked with
    | @registered c registered hok hadd hreplies =>
      constructor
      · intro error hstage
        rw [hstage] at hreplies
        cases hreplies
      · intro d registered' hd hadd' outcome hstage
        rw [hok, Except.ok.injEq] at hd
        rw [← hd, hadd, Except.ok.injEq] at hadd'
        rw [hstage, hadd'] at hreplies
        exact hreplies
    | @rejected reason hrejected hstage huntouched =>
      constructor
      · intro error herror
        rw [hstage, Stage.done.injEq, Except.error.injEq] at herror
        exact ⟨Or.inl ⟨reason, hrejected, herror.symm⟩, huntouched⟩
      · intro c registered hc
        rw [hrejected] at hc
        cases hc
    | @duplicate c existing hok hadd hstage huntouched =>
      constructor
      · intro error herror
        rw [hstage, Stage.done.injEq, Except.error.injEq] at herror
        exact ⟨Or.inr ⟨c, existing, hok, herror.symm⟩, huntouched⟩
      · intro d registered hd hadd'
        rw [hok, Except.ok.injEq] at hd
        rw [← hd, hadd] at hadd'
        cases hadd'
  · intro target hrequest error hstage
    rcases hrequest with hrequest | hrequest
    · rcases story_of_check h hid hrequest with ⟨hchecks, hgone⟩
      rw [hstage] at hchecks
      rcases hchecks with ⟨status, hstatus⟩ | hnotFound
      · cases hstatus
      · exact ⟨Except.error.inj hnotFound, hgone error hstage⟩
    · rcases story_of_remove h hid hrequest with ⟨c, hreplies⟩ | ⟨hdone, hgone⟩
      · rw [hstage] at hreplies
        cases hreplies
      · rw [hstage, Stage.done.injEq, Except.error.injEq] at hdone
        exact ⟨hdone, hgone⟩
  · exact (Nat.le_add_right _ _).trans (length_passages_le h hid)

end Outcomes

/-! ## A registration that is overtaken by a removal -/

open Engine (redelegation redelegation_lowers reversed)

theorem begin_of_refused {s : Service} {c : Constraint} {error : ServiceError}
    (haccept : s.config.limits.accept c = .ok c) (hadd : (s.engine.add c).2 = .error error) :
    (s.begin (.add c)).2 = .done (.error error) := by
  have hbegin : s.begin (.add c) = s.beginAdd (.ok c) := by rw [Service.begin, haccept]
  rw [hbegin]
  rcases s.beginAdd_cases (.ok c) with
    ⟨d, registered, hd, hadd', -⟩ | ⟨error', journal, hdone, ⟨reason, hreason, -⟩ | ⟨d, hd, hadd'⟩⟩
  · cases hd
    rw [hadd] at hadd'
    cases hadd'
  · cases hreason
  · cases hd
    rw [hadd, Except.error.injEq] at hadd'
    rw [hdone, hadd']

theorem begin_of_gone {s : Service} {id : ConstraintId}
    (hgone : s.engine.productions[id]? = none) :
    (s.begin (.check id)).2 = .done (.error (.notFound id)) := by
  simp only [Service.begin, Service.beginPull, Engine.pullPlan, hgone, Service.endPull]

/-- The rule for a permission is registered. -/
def added : Traffic :=
  (start {}).ask ⟨0⟩ (.add (redelegation ⟨"p"⟩))

/-- Another constraint is to be registered for the permission. -/
def contested : Traffic :=
  added.ask ⟨1⟩ (.add reversed)

/-- The rule is removed, while the call that has registered it goes on. -/
def overtaken : Traffic :=
  contested.ask ⟨2⟩ (.remove (ConstraintId.derive (redelegation ⟨"p"⟩)))

/-- The rule is checked. -/
def missed : Traffic :=
  overtaken.ask ⟨3⟩ (.check (ConstraintId.derive (redelegation ⟨"p"⟩)))

theorem reaches_added : (start {}).Reaches added :=
  .single (.begin rfl _)

theorem reaches_missed : (start {}).Reaches missed :=
  ((reaches_added.tail (.begin rfl _)).tail (.begin rfl _)).tail (.begin rfl _)

theorem engine_added : added.service.engine = (Engine.initial {}).run (World.readded.take 1) := by
  rw [(World.run_readded _).1]
  exact Service.engine_begin_add rfl

theorem accept_reversed : added.service.config.limits.accept reversed = .ok reversed := by
  rcases exists_performs reaches_added with ⟨ops, hperforms, -⟩
  rw [hperforms.config]
  rfl

/-- The permission has the rule, and may not have another constraint. -/
theorem refused_reversed :
    (added.service.engine.add reversed).2 =
      .error (.duplicate ⟨"p"⟩ (ConstraintId.derive (redelegation ⟨"p"⟩))) := by
  rw [engine_added]
  refine (Engine.add_error_iff _ _ _).2 (.duplicate ?_ Engine.derive_redelegation_ne_reversed ?_)
  · rw [(World.run_readded _).1,
      Engine.owner?_add_of_free World.free_initial (redelegation_lowers _)]
    exact if_pos rfl
  · rw [Engine.config_run]

theorem engine_contested : contested.service.engine = added.service.engine :=
  (Service.engine_begin_add accept_reversed).trans (Engine.add_of_error refused_reversed)

theorem engine_overtaken :
    overtaken.service.engine = (Engine.initial {}).run (World.readded.take 2) := by
  rw [(World.run_readded _).2.1, ← engine_added, ← engine_contested]
  exact Service.engine_begin_remove _

theorem gone_overtaken : overtaken.service.engine.productions[
    ConstraintId.derive (redelegation ⟨"p"⟩)]? = none := by
  rw [engine_overtaken]
  exact World.productions_removed _

/-- A constraint is registered; another one is refused, because the permission is taken; the first
one is removed before the call that has registered it has ended, and a check does not find it.  The
registration succeeds nevertheless. -/
theorem calls_all_or_nothing_overtaken :
    ∃ w : Traffic, (start {}).Reaches w ∧
      (∃ story, w.calls ⟨0⟩ = some story ∧ story.request = .add (redelegation ⟨"p"⟩) ∧
        story.stage =
          .done (.ok (.registered (ConstraintId.derive (redelegation ⟨"p"⟩)) none))) ∧
      (∃ story error, w.calls ⟨1⟩ = some story ∧ story.request = .add reversed ∧
        story.stage = .done (.error error) ∧ story.Untouched) ∧
      ∃ story error, w.calls ⟨3⟩ = some story ∧
        story.request = .check (ConstraintId.derive (redelegation ⟨"p"⟩)) ∧
        story.stage = .done (.error error) ∧
        error = .notFound (ConstraintId.derive (redelegation ⟨"p"⟩)) ∧
        story.last.before.engine.registry.get? (ConstraintId.derive (redelegation ⟨"p"⟩)) =
          none := by
  have hrefused : (Story.begin added.service (.add reversed)).stage = .done (.error _) :=
    begin_of_refused accept_reversed refused_reversed
  have hmissed : (Story.begin overtaken.service (.check _)).stage = .done (.error _) :=
    begin_of_gone gone_overtaken
  -- the first call goes on to its end, and the ones that have ended stay what they are
  have hzero : missed.calls ⟨0⟩ = some (.begin (start {}).service _) := rfl
  have hone : missed.calls ⟨1⟩ = some (.begin added.service _) := rfl
  have hthree : missed.calls ⟨3⟩ = some (.begin overtaken.service _) := rfl
  rcases exists_done reaches_missed hzero with
    ⟨later, story, hlater, hid, hdone, hrequest, hfirst⟩
  have hreaches := reaches_missed.trans hlater
  have hone' := hlater.calls_of_done hone hrefused
  have hthree' := hlater.calls_of_done hthree hmissed
  refine ⟨later, hreaches, ⟨story, hid, hrequest, ?_⟩, ⟨_, _, hone', rfl, hrefused, ?_⟩,
    ⟨_, _, hthree', rfl, hmissed, ?_⟩⟩
  · have hadd := Engine.add_of_free World.free_initial (redelegation_lowers ⟨"p"⟩)
    have hbefore : story.first.before.engine = Engine.initial {} := by rw [hfirst]; rfl
    have hchecked : story.request.checked? ({} : EngineConfig).limits =
        some (.ok (redelegation ⟨"p"⟩)) := by rw [hrequest]; rfl
    cases hstage : story.stage with
    | done outcome =>
      rw [((calls_all_or_nothing hreaches hid).1 _ hchecked).2 _ _ rfl
        (by rw [hbefore, hadd]) outcome hstage]
      rfl
    | _ =>
      rw [hstage] at hdone
      cases hdone
  · exact (((calls_all_or_nothing hreaches hone').1 (.ok reversed) rfl).1 _ hrefused).2
  · exact (calls_all_or_nothing hreaches hthree').2.1 _ (Or.inl rfl) _ hmissed

end Traffic
end Mandate
