import Mandate.Proofs.Engine.Generations

/-!
# Pulls

Between the plan of a pull and its end anything may happen to the engine.  What the pull comes to is
known from what has happened to its production, and what it changes is known from the inputs that
came in meanwhile.

Main results:

- Definition `Supplied`: an input for a fact came in during a run.
- Theorems `inputEpoch?_of_not_supplied`, `later_of_supplied`, `input_of_supplied`: the times tell
  whether one did, and the last one is what is known.
- Theorems `applyPull_of_none`, `applyPull_of_ne`, `applyPull_of_eq`: the outcomes of a pull.
- Theorem `pull_outcome`: the outcome of a pull after anything that has happened since its plan.
- Theorems `exists_origin`, `first_pull_decides`: where the input comes from that a pull leaves, and
  what is left of two pulls with one plan.
-/

namespace Mandate
namespace Engine

/-! ## Inputs during a run -/

/-- Some operation of the run has supplied an input for the fact. -/
def Supplied (e : Engine) (ops : List Operation) (fact : FactKey) : Prop :=
  ∃ step ∈ e.trace ops, ∃ n ∈ step.1.supplied step.2, n.key = fact

/-- The fact is followed throughout the run. -/
def Followed (e : Engine) (ops : List Operation) (fact : FactKey) : Prop :=
  ∀ early late, ops = early ++ late → (e.run early).network.isSubscribed fact = true

theorem Followed.end {e : Engine} {ops : List Operation} {fact : FactKey}
    (h : e.Followed ops fact) : (e.run ops).network.isSubscribed fact = true :=
  h ops [] (by simp)

theorem Followed.of_concat {e : Engine} {ops : List Operation} {op : Operation} {fact : FactKey}
    (h : e.Followed (ops ++ [op]) fact) : e.Followed ops fact := by
  rintro early late rfl
  exact h early (late ++ [op]) (by simp)

theorem supplied_concat_iff {e : Engine} {ops : List Operation} {op : Operation} {fact : FactKey} :
    e.Supplied (ops ++ [op]) fact ↔
      e.Supplied ops fact ∨ latest? ((e.run ops).supplied op) fact ≠ none := by
  rw [Ne, latest?_eq_none_iff]
  simp [Supplied, trace_concat, or_and_right, exists_or]

theorem latest?_of_not_supplied {e : Engine} {ops : List Operation} {op : Operation}
    {fact : FactKey} (h : ¬ e.Supplied (ops ++ [op]) fact) :
    ¬ e.Supplied ops fact ∧ latest? ((e.run ops).supplied op) fact = none := by
  rw [supplied_concat_iff, not_or, not_not] at h
  exact h

section Inputs

variable {config : RegistryConfig} {before after : List Operation} {fact : FactKey}

/-- The step from one engine of a run to the next, for a fact that stays followed. -/
theorem receives_last {op : Operation}
    (h : ((initial config).run before).Followed (after ++ [op]) fact) :
    (((initial config).run before).run after).network.Receives
      ((((initial config).run before).run after).supplied op) fact
      (((initial config).run before).run (after ++ [op])).network := by
  rcases rooted_run config (before ++ after) with ⟨spare, hrooted⟩
  rw [run_append] at hrooted
  rw [run_concat]
  refine hrooted.receives op h.of_concat.end ?_
  rw [← run_concat]
  exact h.end

/-- Without an input for a fact the time of its last one stays. -/
theorem inputEpoch?_of_not_supplied
    (hfollowed : ((initial config).run before).Followed after fact)
    (hnone : ¬ ((initial config).run before).Supplied after fact) :
    (((initial config).run before).run after).network.inputEpoch? fact =
      ((initial config).run before).network.inputEpoch? fact := by
  induction after using List.reverseRecOn with
  | nil => rfl
  | append_singleton after op ih =>
    rcases latest?_of_not_supplied hnone with ⟨hearlier, hlast⟩
    exact ((receives_last hfollowed).kept hlast).trans (ih hfollowed.of_concat hearlier)

theorem epoch_le_run (config : RegistryConfig) (before after : List Operation) :
    ((initial config).run before).network.epoch ≤
      (((initial config).run before).run after).network.epoch := by
  induction after using List.reverseRecOn with
  | nil => exact Nat.le_refl _
  | append_singleton after op ih =>
    rcases rooted_run config (before ++ after) with ⟨spare, hrooted⟩
    rw [run_append] at hrooted
    rw [run_concat]
    exact Nat.le_trans ih (hrooted.epoch_le_perform op)

/-- An input that comes in during a run is noted at a later time than all inputs before the run. -/
theorem later_of_supplied (hfollowed : ((initial config).run before).Followed after fact)
    (hsupplied : ((initial config).run before).Supplied after fact) :
    ∃ time, (((initial config).run before).run after).network.inputEpoch? fact = some time ∧
      ((initial config).run before).network.epoch < time := by
  induction after using List.reverseRecOn with
  | nil => simp [Supplied, trace] at hsupplied
  | append_singleton after op ih =>
    have hreceives := receives_last hfollowed
    by_cases hlast : latest? ((((initial config).run before).run after).supplied op) fact = none
    · have hearlier := (supplied_concat_iff.1 hsupplied).resolve_right (not_not_intro hlast)
      rw [hreceives.kept hlast]
      exact ih hfollowed.of_concat hearlier
    · rcases hreceives.later hlast with ⟨time, htime, hlt⟩
      exact ⟨time, htime, Nat.lt_of_le_of_lt (epoch_le_run config before after) hlt⟩

/-- What is known of a fact is the last input that came in. -/
theorem input_of_supplied (hfollowed : ((initial config).run before).Followed after fact)
    (hsupplied : ((initial config).run before).Supplied after fact) :
    ∃ step ∈ ((initial config).run before).trace after, ∃ n ∈ step.1.supplied step.2,
      n.key = fact ∧
        n.value = (((initial config).run before).run after).network.input fact := by
  induction after using List.reverseRecOn with
  | nil => simp [Supplied, trace] at hsupplied
  | append_singleton after op ih =>
    have hinput := (receives_last hfollowed).input
    rw [trace_concat]
    cases hlast : latest? ((((initial config).run before).run after).supplied op) fact with
    | none =>
      have hearlier := (supplied_concat_iff.1 hsupplied).resolve_right (not_not_intro hlast)
      rcases ih hfollowed.of_concat hearlier with ⟨step, hstep, n, hn, hkey, hvalue⟩
      rw [hlast, Option.getD_none] at hinput
      exact ⟨step, List.mem_append_left _ hstep, n, hn, hkey, hvalue.trans hinput.symm⟩
    | some value =>
      rcases exists_of_latest? hlast with ⟨n, hn, hkey, hvalue⟩
      rw [hlast, Option.getD_some] at hinput
      exact ⟨_, List.mem_append_right _ (List.mem_singleton_self _), n, hn, hkey,
        hvalue.trans hinput.symm⟩

end Inputs

/-! ## The end of a pull -/

section Outcome

variable {e : Engine} {plan : PullPlan} {p : Production}

theorem applyPull_of_none (h : e.productions[plan.id]? = none) (news : List FactUpdate)
    (now : Occasion) : e.applyPull plan news now = (e, .error (.notFound plan.id)) := by
  simp only [applyPull, h]

theorem applyPull_of_ne (h : e.productions[plan.id]? = some p)
    (hne : p.generation ≠ plan.generation) (news : List FactUpdate) (now : Occasion) :
    e.applyPull plan news now = (e, .ok .superseded) := by
  simp only [applyPull, h, if_neg hne]

/-- The pull of a production that is still the same is applied, and evaluates it. -/
theorem applyPull_of_eq (h : e.productions[plan.id]? = some p) (hid : p.id = plan.id)
    (heq : p.generation = plan.generation) (news : List FactUpdate) (now : Occasion) :
    let applied := e.apply (news.filter (isFresh e.network plan)) (some plan.id) now
    ∃ q, e.applyPull plan news now = (applied.1, .ok (.applied q.status applied.2)) ∧
      applied.1.productions[plan.id]? = some q ∧
      q.state = .ofValue (applied.1.network.value q.root) := by
  intro applied
  rcases exists_right_of_rel (settles_apply e (news.filter (isFresh e.network plan))
    (some plan.id) now plan.id) h with ⟨q, hq, hsettles⟩
  refine ⟨q, ?_, hq, ?_⟩
  · simp only [applyPull, h, if_pos heq, hq, applied]
  · -- the production is asked for, so it is due
    rcases hsettles with ⟨-, history, rfl⟩ | ⟨hdue, -⟩
    · rfl
    · exact (hdue (by simp [isDue, hid])).elim

end Outcome

/-- News about a fact are fresh if and only if the last input for the fact is not later than the
plan. -/
theorem isFresh_iff {net : Network} {plan : PullPlan} {n : FactUpdate} :
    isFresh net plan n = true ↔ ∀ time, net.inputEpoch? n.key = some time → time ≤ plan.epoch := by
  unfold isFresh
  cases net.inputEpoch? n.key <;> simp

/-- The news of a pull that count for a fact: all of them, or none if an input came in since. -/
theorem latest?_fresh {net : Network} {plan : PullPlan} (news : List FactUpdate) {fact : FactKey} :
    ((∀ time, net.inputEpoch? fact = some time → time ≤ plan.epoch) →
        latest? (news.filter (isFresh net plan)) fact = latest? news fact) ∧
      ((∃ time, net.inputEpoch? fact = some time ∧ plan.epoch < time) →
        latest? (news.filter (isFresh net plan)) fact = none) := by
  constructor
  · intro hold
    refine latest?_filter fun n _ hkey => isFresh_iff.2 ?_
    rw [hkey]
    exact hold
  · rintro ⟨time, htime, hlt⟩
    rw [latest?_eq_none_iff]
    rintro n hn rfl
    have hle := isFresh_iff.1 (List.mem_filter.1 hn).2 time htime
    omega

/-! ## A pull in a run -/

theorem pullPlan_eq_ok_iff {e : Engine} {id : ConstraintId} {plan : PullPlan} :
    e.pullPlan id = .ok plan ↔ ∃ p : Production, e.productions[id]? = some p ∧
      plan = ⟨id, p.generation, e.network.epoch, p.facts⟩ := by
  unfold pullPlan
  cases e.productions[id]? <;> simp [eq_comm]

section Run

variable {config : RegistryConfig} {before after : List Operation} {id : ConstraintId}
  {p : Production}

/-- The facts of a production that still has its number have been followed all the time. -/
theorem followed_of_generation {q : Production}
    (hp : ((initial config).run before).productions[id]? = some p)
    (hq : (((initial config).run before).run after).productions[id]? = some q)
    (hsame : q.generation = p.generation) {fact : FactKey} (hfact : fact ∈ p.facts) :
    ((initial config).run before).Followed after fact := by
  have hle : q.generation ≤ ((initial config).run before).generation := by
    rw [hsame]
    exact generation_le_of_run hp
  rintro early late rfl
  rcases production_of_generation_le hq hle with ⟨r, hr, -, hconstraint⟩
  have hfirst : ∃ r, (((initial config).run before).run []).productions[id]? = some r ∧
      r.generation = q.generation ∧ r.constraint = q.constraint :=
    production_of_generation_le hq hle
  rcases hfirst with ⟨p', hp', -, hconstraint'⟩
  have hpp' : p' = p := Option.some.inj (hp'.symm.trans hp)
  rcases rooted_run config before with ⟨spare, hplanned⟩
  rcases rooted_run config (before ++ early) with ⟨spare', hrooted⟩
  rw [run_append] at hrooted
  refine hrooted.isSubscribed_of_mem_facts hr ?_
  rw [(hrooted.faithful hr).facts, hconstraint, ← hconstraint', hpp', ← (hplanned.faithful hp).facts]
  exact hfact

/-- The outcomes of a pull: the production has stayed, another one is there, or none is. -/
theorem pull_cases (hops : Unambiguous (before ++ after)) {plan : PullPlan}
    (hplan : ((initial config).run before).pullPlan id = .ok plan) (news : List FactUpdate)
    (now : Occasion) :
    let e := ((initial config).run before).run after
    let applied := e.apply (news.filter (isFresh e.network plan)) (some id) now
    (((initial config).run before).Continues after id ∧ e.IsRegistered id ∧
        (∀ fact ∈ plan.keys, ((initial config).run before).Followed after fact) ∧
        ∃ q, e.applyPull plan news now = (applied.1, .ok (.applied q.status applied.2)) ∧
          applied.1.productions[id]? = some q ∧
          q.state = .ofValue (applied.1.network.value q.root)) ∨
      (¬ ((initial config).run before).Continues after id ∧ e.IsRegistered id ∧
        e.applyPull plan news now = (e, .ok .superseded)) ∨
      (¬ ((initial config).run before).Continues after id ∧ ¬ e.IsRegistered id ∧
        e.applyPull plan news now = (e, .error (.notFound id))) := by
  intro e applied
  rcases pullPlan_eq_ok_iff.1 hplan with ⟨p, hp, rfl⟩
  have hrun : (initial config).run (before ++ after) = e := run_append _ _ _
  rcases rooted_run config (before ++ after) with ⟨spare, hrooted⟩
  rw [hrun] at hrooted
  by_cases hstays : ((initial config).run before).Continues after id
  · left
    rcases production_of_continues hops hp hstays with ⟨q, hq, hgeneration, -⟩
    rw [hrun] at hq
    exact ⟨hstays, hrooted.isRegistered_iff.2 ⟨q, hq⟩,
      fun fact => followed_of_generation hp hq hgeneration,
      applyPull_of_eq hq (hrooted.identified hq) hgeneration news now⟩
  · right
    cases hq : e.productions[id]? with
    | some q =>
      have hlt := generation_lt_of_interrupted hops hp hstays (hrun ▸ hq)
      exact Or.inl ⟨hstays, hrooted.isRegistered_iff.2 ⟨q, hq⟩,
        applyPull_of_ne hq (Nat.ne_of_gt hlt) news now⟩
    | none =>
      refine Or.inr ⟨hstays, ?_, applyPull_of_none hq news now⟩
      rw [hrooted.isRegistered_iff, hq]
      simp

/-- What a pull that is applied does to a followed fact: the fact keeps its input if one has come in
since the plan, and otherwise takes what has been fetched. -/
theorem input_of_pull {plan : PullPlan}
    (hepoch : plan.epoch = ((initial config).run before).network.epoch) {fact : FactKey}
    (hfollowed : ((initial config).run before).Followed after fact) (news : List FactUpdate)
    (asked : Option ConstraintId) (now : Occasion) :
    let e := ((initial config).run before).run after
    let final := (e.apply (news.filter (isFresh e.network plan)) asked now).1
    final.network.isSubscribed fact = true ∧
      (((initial config).run before).Supplied after fact →
        final.network.input fact = e.network.input fact) ∧
      (¬ ((initial config).run before).Supplied after fact →
        final.network.input fact = (latest? news fact).getD (e.network.input fact)) := by
  intro e final
  rcases rooted_run config before with ⟨spare, hplanned⟩
  rcases rooted_run config (before ++ after) with ⟨spare', hrooted⟩
  rw [run_append] at hrooted
  have hinput := (hrooted.receives_apply hfollowed.end
    (news.filter (isFresh e.network plan)) asked now).input
  refine ⟨(hrooted.isSubscribed_apply _ _ now fact).trans hfollowed.end, ?_, ?_⟩
  · intro hsupplied
    have hlater := later_of_supplied hfollowed hsupplied
    rw [← hepoch] at hlater
    refine hinput.trans ?_
    rw [(latest?_fresh news).2 hlater, Option.getD_none]
  · intro hnone
    -- the last input is not later than the plan
    have hold : ∀ time, e.network.inputEpoch? fact = some time → time ≤ plan.epoch := by
      rw [inputEpoch?_of_not_supplied hfollowed hnone, hepoch]
      exact fun time => hplanned.stamped.inputEpoch?_le
    refine hinput.trans ?_
    rw [(latest?_fresh news).1 hold]

/-- Whatever has happened between the plan and the end of a pull, and whatever has been fetched: the
pull is applied if and only if its identity has been registered all the time, it is superseded if
and only if the identity was withdrawn and is registered again, and otherwise the identity is not
found.  If the pull is not applied, nothing changes.  If it is, a fact of the plan keeps its input if
any input for it came in since the plan, and otherwise takes the last value that has been fetched;
and the production has the state that its root calls for. -/
theorem pull_outcome (config : RegistryConfig) (before after : List Operation)
    (hops : Unambiguous (before ++ after)) {id : ConstraintId} {plan : PullPlan}
    (hplan : ((initial config).run before).pullPlan id = .ok plan) (news : List FactUpdate)
    (now : Occasion) :
    let planned := (initial config).run before
    let e := planned.run after
    let reply := (e.applyPull plan news now).2
    let final := (e.applyPull plan news now).1
    ((∃ status batch, reply = .ok (.applied status batch)) ↔
        ∀ early late, after = early ++ late → (planned.run early).IsRegistered id) ∧
      (reply = .ok .superseded ↔
        (∃ step ∈ planned.trace after, step.1.Withdraws step.2 id) ∧ e.IsRegistered id) ∧
      (reply = .error (.notFound id) ↔ ¬ e.IsRegistered id) ∧
      ((∀ status batch, reply ≠ .ok (.applied status batch)) → final = e) ∧
      ∀ status batch, reply = .ok (.applied status batch) →
        (∀ fact ∈ plan.keys, final.network.isSubscribed fact = true ∧
          (planned.Supplied after fact → final.network.input fact = e.network.input fact) ∧
          (¬ planned.Supplied after fact →
            final.network.input fact = (latest? news fact).getD (e.network.input fact))) ∧
        ∃ q : Production, final.productions[id]? = some q ∧ status = q.status ∧
          q.state ≠ .unknown ∧ q.state = .ofValue (final.network.value q.root) := by
  intro planned e reply final
  rcases pullPlan_eq_ok_iff.1 hplan with ⟨p, hp, hshape⟩
  have hepoch : plan.epoch = planned.network.epoch := by rw [hshape]
  have hcontinues : planned.Continues after id ↔ ∀ early late, after = early ++ late →
      (planned.run early).IsRegistered id := continues_iff hops hp
  have hwithdrawn : (∃ step ∈ planned.trace after, step.1.Withdraws step.2 id) ↔
      ¬ planned.Continues after id := by simp [Continues]
  rw [← hcontinues, hwithdrawn]
  rcases pull_cases hops hplan news now with
    ⟨hstays, hthere, hfollowed, q, hpull, hq, hstate⟩ | ⟨hgone, hthere, hpull⟩ |
      ⟨hgone, hnone, hpull⟩
  · change planned.Continues after id at hstays
    change e.IsRegistered id at hthere
    have hreply : reply = .ok (.applied q.status _) := congrArg Prod.snd hpull
    have hfinal : final = _ := congrArg Prod.fst hpull
    rw [hreply, hfinal]
    refine ⟨by simp [hstays], by simp [hstays], by simp [hthere], by simp, ?_⟩
    intro status batch' happlied
    simp only [Except.ok.injEq, PullOutcome.applied.injEq] at happlied
    refine ⟨fun fact hfact => input_of_pull hepoch (hfollowed fact hfact) news (some id) now, q, hq,
      happlied.1.symm, ?_, hstate⟩
    rw [hstate]
    exact ActivationState.ofValue_ne_unknown _
  · change ¬ planned.Continues after id at hgone
    change e.IsRegistered id at hthere
    have hreply : reply = .ok .superseded := congrArg Prod.snd hpull
    have hfinal : final = e := congrArg Prod.fst hpull
    rw [hreply, hfinal]
    simp [hgone, hthere]
  · change ¬ planned.Continues after id at hgone
    change ¬ e.IsRegistered id at hnone
    have hreply : reply = .error (.notFound id) := congrArg Prod.snd hpull
    have hfinal : final = e := congrArg Prod.fst hpull
    rw [hreply, hfinal]
    simp [hgone, hnone]

end Run

/-! ## A pull that meets a push -/

/-- The same news about the first permission once more. -/
def pushedAgain : List Operation :=
  [.applyFacts [⟨.redelegated ⟨"p"⟩, some (.bool true)⟩] 1]

theorem unambiguous_pushedAgain : Unambiguous (twoRedelegations ++ pushedAgain) := by
  intro c d hc hd
  simp only [pushedAgain, List.mem_append, List.mem_singleton, reduceCtorEq, or_false] at hc hd
  exact unambiguous_twoRedelegations c d hc hd

/-- The plan for the first permission fetches the one fact that its constraint reads. -/
theorem exists_plan_twoRedelegations :
    ∃ plan, ((initial {}).run twoRedelegations).pullPlan
        (ConstraintId.derive (redelegation ⟨"p"⟩)) = .ok plan ∧
      FactKey.redelegated ⟨"p"⟩ ∈ plan.keys := by
  rcases exists_production_twoRedelegations {} with ⟨p, hp⟩
  rcases reached {} twoRedelegations unambiguous_twoRedelegations with ⟨hcoherent, hadded⟩
  have hconstraint : p.constraint = redelegation ⟨"p"⟩ :=
    unambiguous_twoRedelegations _ _ (hadded _ p hp) List.mem_cons_self
      (hcoherent.faithful hp).derived.symm
  refine ⟨_, pullPlan_eq_ok_iff.2 ⟨p, hp, rfl⟩, ?_⟩
  dsimp only
  rw [(hcoherent.faithful hp).facts, hconstraint, ← (redelegation_lowers ⟨"p"⟩).mem_facts_iff]
  exact List.mem_singleton_self _

/-- While a pull fetches the value `false`, news come in that say what was known before, `true`. 
The pull is applied, and the news win. -/
theorem pull_pushedAgain :
    Unambiguous (twoRedelegations ++ pushedAgain) ∧
      ∃ plan, ((initial {}).run twoRedelegations).pullPlan
          (ConstraintId.derive (redelegation ⟨"p"⟩)) = .ok plan ∧
        (∃ status batch, ((((initial {}).run twoRedelegations).run pushedAgain).applyPull plan
          [⟨.redelegated ⟨"p"⟩, some (.bool false)⟩] 2).2 = .ok (.applied status batch)) ∧
        ((((initial {}).run twoRedelegations).run pushedAgain).applyPull plan
          [⟨.redelegated ⟨"p"⟩, some (.bool false)⟩] 2).1.network.input (.redelegated ⟨"p"⟩) =
            some (.bool true) := by
  refine ⟨unambiguous_pushedAgain, ?_⟩
  rcases exists_plan_twoRedelegations with ⟨plan, hplan, hkey⟩
  rcases pullPlan_eq_ok_iff.1 hplan with ⟨p, hp, hshape⟩
  have houtcome := pull_outcome {} twoRedelegations pushedAgain unambiguous_pushedAgain hplan
    [⟨.redelegated ⟨"p"⟩, some (.bool false)⟩] 2
  have hkeys : plan.keys = p.facts := by rw [hshape]
  have hstays : ((initial {}).run twoRedelegations).Continues pushedAgain
      (ConstraintId.derive (redelegation ⟨"p"⟩)) := by
    simp [Continues, pushedAgain, trace, not_withdraws_applyFacts]
  have hsupplied : ((initial {}).run twoRedelegations).Supplied pushedAgain
      (.redelegated ⟨"p"⟩) := by
    simp [Supplied, pushedAgain, trace, supplied]
  rcases production_of_continues unambiguous_pushedAgain hp hstays with ⟨q, hq, hgeneration, -⟩
  rw [run_append] at hq
  have hfollowed := followed_of_generation hp hq hgeneration (hkeys ▸ hkey)
  rcases houtcome.1.2 ((continues_iff unambiguous_pushedAgain hp).1 hstays) with
    ⟨status, batch, hreply⟩
  have hinput := ((houtcome.2.2.2.2 status batch hreply).1 _ hkey).2.1 hsupplied
  rcases input_of_supplied hfollowed hsupplied with ⟨step, hstep, n, hn, -, hvalue⟩
  simp only [pushedAgain, trace, List.mem_singleton] at hstep
  subst hstep
  simp only [supplied, List.mem_singleton] at hn
  subst hn
  exact ⟨plan, hplan, ⟨status, batch, hreply⟩, hinput.trans hvalue.symm⟩

end Engine
end Mandate
