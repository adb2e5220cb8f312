import Mandate.Engine.Pull
import Mandate.Proofs.Engine.Rooted

/-!
# Generations

Every registration has a number of its own.  A production keeps the number as long as it is neither
removed nor replaced, and one that comes back has a greater number, so the number tells whether a
production has been there without interruption.

Main results:

- Definition `Withdraws`: an operation removes or replaces what is registered under an identity.
- Theorems `Rooted.kept`, `Rooted.gone`, `Rooted.origin`: what an operation does to the production
  of an identity.
- Definition `Continues`: nothing has been withdrawn since some time.
- Theorems `production_of_continues`, `generation_lt_of_interrupted`: what a run does to it.
-/

namespace Mandate
namespace Engine

/-- The identity is registered. -/
def IsRegistered (e : Engine) (id : ConstraintId) : Prop :=
  ∃ c, e.registry.get? id = some c

/-- The operation removes what is registered under the identity, or puts another constraint in its
place. -/
def Withdraws (e : Engine) (op : Operation) (id : ConstraintId) : Prop :=
  (op = .remove id ∧ ∃ removed, (e.remove id).2 = .ok removed) ∨
    ∃ c registered, op = .add c ∧ (e.add c).2 = .ok registered ∧ registered.kind = .replaced id

theorem not_withdraws_applyFacts (e : Engine) (news : List FactUpdate) (now : Occasion)
    (id : ConstraintId) : ¬ e.Withdraws (.applyFacts news now) id := by
  simp [Withdraws]

theorem kindOf_eq_replaced_iff {old : Option ConstraintId} {id : ConstraintId} :
    kindOf old = .replaced id ↔ old = some id := by
  cases old <;> simp [kindOf]

namespace Rooted

variable {e : Engine} {spare : List NodeId} {op : Operation} {id : ConstraintId}
  {p q : Production}

theorem isRegistered_iff (h : e.Rooted spare) :
    e.IsRegistered id ↔ ∃ p : Production, e.productions[id]? = some p := by
  unfold IsRegistered
  rw [h.registered]
  simp

/-- A constraint that is admitted has no production yet. -/
theorem production_of_admits {c : Constraint} {old : Option ConstraintId} (h : e.Rooted spare)
    (hc : e.Distinguishes c) (hadmits : e.Admits c old) :
    e.productions[ConstraintId.derive c]? = none := by
  cases hp : e.productions[ConstraintId.derive c]? with
  | none => rfl
  | some p =>
    have hget : e.registry.get? (ConstraintId.derive c) = some c := by
      rw [h.registered, hp, Option.map_some, hc p hp]
    have howner := h.owning _ c hget
    rw [hadmits.owner] at howner
    exact (hadmits.other howner).elim

/-- The productions after a constraint has been installed. -/
theorem productions_registered {c : Constraint} {old : Option ConstraintId} {circuit : Circuit}
    (h : e.Rooted spare) (hadmits : e.Admits c old) (hlowers : c.Lowers circuit)
    (id : ConstraintId) :
    (e.registered c circuit old).productions[id]? =
      if id = ConstraintId.derive c then
        some ((e.makeRoom circuit old).1.entered (ConstraintId.derive c) c
          (e.network.build circuit).root)
      else if some id = old then none else e.productions[id]? := by
  rw [← (h.makeRoom hlowers hadmits).productions]
  exact productions_enter _ _ _ _ id

/-- A batch of news keeps all productions with their numbers. -/
theorem kept_apply (hp : e.productions[id]? = some p) (news : List FactUpdate)
    (asked : Option ConstraintId) (now : Occasion) :
    ∃ q, (e.apply news asked now).1.productions[id]? = some q ∧ q.generation = p.generation ∧
      q.constraint = p.constraint := by
  rcases exists_right_of_rel (settles_apply e news asked now id) hp with ⟨q, hq, hsettles⟩
  exact ⟨q, hq, hsettles.generation_eq, hsettles.constraint_eq⟩

/-- A production that is not withdrawn stays, with its number and its constraint. -/
theorem kept (h : e.Rooted spare) (hop : ∀ c, op = .add c → e.Distinguishes c)
    (hp : e.productions[id]? = some p) (hstays : ¬ e.Withdraws op id) :
    ∃ q, (e.perform op).productions[id]? = some q ∧ q.generation = p.generation ∧
      q.constraint = p.constraint := by
  cases op with
  | add c =>
    have hstill : ∀ registered, (e.add c).2 = .ok registered → registered.kind ≠ .replaced id :=
      fun registered hreply hkind => hstays (Or.inr ⟨c, registered, rfl, hreply, hkind⟩)
    have houtcome := e.add_outcome c
    simp only [Engine.perform]
    generalize (e.add c).1 = after at houtcome ⊢
    generalize (e.add c).2 = reply at houtcome hstill
    cases houtcome with
    | refused _ => exact ⟨p, hp, rfl, rfl⟩
    | unchanged _ => exact ⟨p, hp, rfl, rfl⟩
    | @installed old circuit hadmits hlowers =>
      have hnew := h.production_of_admits (hop c rfl) hadmits
      have hne : id ≠ ConstraintId.derive c := by
        rintro rfl
        rw [hp] at hnew
        cases hnew
      have hother : some id ≠ old := fun heq =>
        hstill _ rfl (kindOf_eq_replaced_iff.2 heq.symm)
      rw [h.productions_registered hadmits hlowers, if_neg hne, if_neg hother]
      exact ⟨p, hp, rfl, rfl⟩
  | remove other =>
    have hne : id ≠ other := by
      rintro rfl
      rcases h.remove_cases id with ⟨removed, hremoved, -⟩ | ⟨-, hnone⟩
      · exact hstays (Or.inl ⟨rfl, removed, hremoved⟩)
      · rw [hp] at hnone
        cases hnone
    simp only [Engine.perform]
    rcases h.remove_cases other with ⟨removed, -, hclears⟩ | ⟨hremove, -⟩
    · rw [hclears.productions, if_neg hne]
      exact ⟨p, hp, rfl, rfl⟩
    · rw [hremove]
      exact ⟨p, hp, rfl, rfl⟩
  | applyFacts news now => exact kept_apply hp news none now
  | applyPull plan news now =>
    rcases e.perform_applyPull plan news now with hafter | ⟨hafter, -⟩
    · rw [hafter]
      exact kept_apply hp _ _ now
    · rw [hafter]
      exact ⟨p, hp, rfl, rfl⟩

/-- What has been withdrawn is not registered. -/
theorem gone (h : e.Rooted spare) (hgone : e.Withdraws op id) :
    (e.perform op).productions[id]? = none := by
  rcases hgone with ⟨rfl, removed, hremoved⟩ | ⟨c, registered, rfl, hreply, hkind⟩
  · rcases h.remove_cases id with ⟨other, -, hclears⟩ | ⟨hremove, -⟩
    · exact (hclears.productions id).trans (if_pos rfl)
    · rw [hremove] at hremoved
      cases hremoved
  · have houtcome := e.add_outcome c
    rw [hreply] at houtcome
    simp only [Engine.perform]
    generalize (e.add c).1 = after at houtcome ⊢
    cases houtcome with
    | unchanged _ => cases hkind
    | @installed old circuit hadmits hlowers =>
      have hold : old = some id := kindOf_eq_replaced_iff.1 hkind
      have hne : id ≠ ConstraintId.derive c := by
        rintro rfl
        exact hadmits.other hold
      rw [h.productions_registered hadmits hlowers, if_neg hne, if_pos hold.symm]

/-- A production has been there before with its number and its constraint, or it has been registered
by the operation and has the next number, which is taken then. -/
theorem origin (h : e.Rooted spare) (hq : (e.perform op).productions[id]? = some q) :
    (∃ p, e.productions[id]? = some p ∧ q.generation = p.generation ∧
        q.constraint = p.constraint) ∨
      (q.generation = e.generation + 1 ∧ (e.perform op).generation = e.generation + 1) := by
  cases op with
  | add c =>
    have houtcome := e.add_outcome c
    simp only [Engine.perform] at hq ⊢
    generalize (e.add c).1 = after at houtcome hq ⊢
    generalize (e.add c).2 = reply at houtcome
    cases houtcome with
    | refused _ => exact Or.inl ⟨q, hq, rfl, rfl⟩
    | unchanged _ => exact Or.inl ⟨q, hq, rfl, rfl⟩
    | @installed old circuit hadmits hlowers =>
      rw [h.productions_registered hadmits hlowers] at hq
      by_cases hid : id = ConstraintId.derive c
      · rw [if_pos hid, Option.some.injEq] at hq
        rw [← hq]
        exact Or.inr
          ⟨generation_registered e c circuit old, generation_registered e c circuit old⟩
      · rw [if_neg hid, Option.ite_none_left_eq_some] at hq
        exact Or.inl ⟨q, hq.2, rfl, rfl⟩
  | remove other =>
    simp only [Engine.perform] at hq
    rcases h.remove_cases other with ⟨removed, -, hclears⟩ | ⟨hremove, -⟩
    · rw [hclears.productions, Option.ite_none_left_eq_some] at hq
      exact Or.inl ⟨q, hq.2, rfl, rfl⟩
    · rw [hremove] at hq
      exact Or.inl ⟨q, hq, rfl, rfl⟩
  | applyFacts news now =>
    rcases exists_left_of_rel (settles_apply e news none now id) hq with ⟨p, hp, hsettles⟩
    exact Or.inl ⟨p, hp, hsettles.generation_eq, hsettles.constraint_eq⟩
  | applyPull plan news now =>
    rcases e.perform_applyPull plan news now with hafter | ⟨hafter, -⟩
    · rw [hafter] at hq
      rcases exists_left_of_rel (settles_apply e _ _ now id) hq with ⟨p, hp, hsettles⟩
      exact Or.inl ⟨p, hp, hsettles.generation_eq, hsettles.constraint_eq⟩
    · rw [hafter] at hq
      exact Or.inl ⟨q, hq, rfl, rfl⟩

end Rooted

/-- The number of registrations never goes back. -/
theorem generation_le_perform (e : Engine) (op : Operation) :
    e.generation ≤ (e.perform op).generation := by
  cases op with
  | add c =>
    have houtcome := e.add_outcome c
    simp only [perform]
    generalize (e.add c).1 = after at houtcome ⊢
    generalize (e.add c).2 = reply at houtcome
    cases houtcome with
    | refused _ => exact Nat.le_refl _
    | unchanged _ => exact Nat.le_refl _
    | installed _ _ =>
      rw [generation_registered]
      omega
  | remove id =>
    simp only [perform, remove]
    cases e.productions[id]? <;> exact Nat.le_refl _
  | applyFacts news now => exact Nat.le_refl _
  | applyPull plan news now =>
    rcases e.perform_applyPull plan news now with hafter | ⟨hafter, -⟩
    · rw [hafter]
      exact Nat.le_refl _
    · rw [hafter]

theorem generation_le_run (e : Engine) (ops : List Operation) :
    e.generation ≤ (e.run ops).generation := by
  induction ops generalizing e with
  | nil => exact Nat.le_refl _
  | cons op ops ih => exact Nat.le_trans (generation_le_perform e op) (ih (e.perform op))

/-! ## Runs -/

theorem run_append (e : Engine) (ops more : List Operation) :
    e.run (ops ++ more) = (e.run ops).run more := by
  simp [run]

theorem trace_append (e : Engine) (ops more : List Operation) :
    e.trace (ops ++ more) = e.trace ops ++ (e.run ops).trace more := by
  induction ops generalizing e with
  | nil => rfl
  | cons op ops ih =>
    rw [List.cons_append, trace, ih]
    rfl

/-- Nothing that is registered under the identity has been withdrawn. -/
def Continues (e : Engine) (ops : List Operation) (id : ConstraintId) : Prop :=
  ∀ step ∈ e.trace ops, ¬ step.1.Withdraws step.2 id

theorem Continues.of_append {e : Engine} {ops more : List Operation} {id : ConstraintId}
    (h : e.Continues (ops ++ more) id) : e.Continues ops id := by
  intro step hstep
  rw [Continues, trace_append] at h
  exact h step (List.mem_append_left _ hstep)

theorem continues_concat_iff {e : Engine} {ops : List Operation} {op : Operation}
    {id : ConstraintId} :
    e.Continues (ops ++ [op]) id ↔ e.Continues ops id ∧ ¬ (e.run ops).Withdraws op id := by
  simp [Continues, trace_concat, or_imp, forall_and]

/-- What the last operation of a run adds has an identity of its own. -/
theorem distinguishes_last {config : RegistryConfig} {ops : List Operation} {op : Operation}
    (hops : Unambiguous (ops ++ [op])) :
    ∀ c, op = .add c → ((initial config).run ops).Distinguishes c := by
  have hstep : ((initial config).run ops, op) ∈ (initial config).trace (ops ++ [op]) := by
    rw [trace_concat]
    exact List.mem_append_right _ (List.mem_singleton_self _)
  exact (reached_of_mem_trace hops hstep).2

section Run

variable {config : RegistryConfig} {before after : List Operation} {id : ConstraintId}
  {p q : Production}

/-- No production has a number that has not been given yet. -/
theorem generation_le_of_run {ops : List Operation}
    (hp : ((initial config).run ops).productions[id]? = some p) :
    p.generation ≤ ((initial config).run ops).generation := by
  induction ops using List.reverseRecOn generalizing p with
  | nil => simp [run, initial] at hp
  | append_singleton ops op ih =>
    rcases rooted_run config ops with ⟨spare, hrooted⟩
    rw [run_concat] at hp ⊢
    rcases hrooted.origin hp with ⟨old, hold, hsame, -⟩ | ⟨hnext, htaken⟩
    · rw [hsame]
      exact Nat.le_trans (ih hold) (generation_le_perform _ op)
    · omega

/-- A production whose number was given before a run has been there throughout the run. -/
theorem production_of_generation_le {early late : List Operation}
    (hq : (((initial config).run before).run (early ++ late)).productions[id]? = some q)
    (hle : q.generation ≤ ((initial config).run before).generation) :
    ∃ r, (((initial config).run before).run early).productions[id]? = some r ∧
      r.generation = q.generation ∧ r.constraint = q.constraint := by
  induction late using List.reverseRecOn generalizing q with
  | nil =>
    rw [List.append_nil] at hq
    exact ⟨q, hq, rfl, rfl⟩
  | append_singleton late op ih =>
    rcases rooted_run config (before ++ (early ++ late)) with ⟨spare, hrooted⟩
    rw [run_append] at hrooted
    rw [← List.append_assoc, run_concat] at hq
    rcases hrooted.origin hq with ⟨old, hold, hgeneration, hconstraint⟩ | ⟨hnext, -⟩
    · rcases ih hold (hgeneration ▸ hle) with ⟨r, hr, hsame, hsame'⟩
      exact ⟨r, hr, hsame.trans hgeneration.symm, hsame'.trans hconstraint.symm⟩
    · have hlater := generation_le_run ((initial config).run before) (early ++ late)
      omega

/-- A production that is not withdrawn keeps its number and its constraint throughout a run. -/
theorem production_of_continues (hops : Unambiguous (before ++ after))
    (hp : ((initial config).run before).productions[id]? = some p)
    (hstays : ((initial config).run before).Continues after id) :
    ∃ q, ((initial config).run (before ++ after)).productions[id]? = some q ∧
      q.generation = p.generation ∧ q.constraint = p.constraint := by
  induction after using List.reverseRecOn with
  | nil => exact ⟨p, by rwa [List.append_nil], rfl, rfl⟩
  | append_singleton after op ih =>
    rw [← List.append_assoc] at hops ⊢
    rw [continues_concat_iff, ← run_append] at hstays
    rcases ih hops.of_append hstays.1 with ⟨r, hr, hgeneration, hconstraint⟩
    rcases rooted_run config (before ++ after) with ⟨spare, hrooted⟩
    rcases hrooted.kept (distinguishes_last hops) hr hstays.2 with ⟨q, hq, hsame, hsame'⟩
    rw [run_concat]
    exact ⟨q, hq, hsame.trans hgeneration, hsame'.trans hconstraint⟩

/-- A production that has come back after it was withdrawn has a greater number. -/
theorem generation_lt_of_interrupted (hops : Unambiguous (before ++ after))
    (hp : ((initial config).run before).productions[id]? = some p)
    (hgone : ¬ ((initial config).run before).Continues after id)
    (hq : ((initial config).run (before ++ after)).productions[id]? = some q) :
    p.generation < q.generation := by
  induction after using List.reverseRecOn generalizing q with
  | nil => simp [Continues, trace] at hgone
  | append_singleton after op ih =>
    rw [← List.append_assoc] at hops hq
    rcases rooted_run config (before ++ after) with ⟨spare, hrooted⟩
    rw [continues_concat_iff, ← run_append] at hgone
    rw [run_concat] at hq
    have hlast : ¬ ((initial config).run (before ++ after)).Withdraws op id := by
      intro hwithdraws
      rw [hrooted.gone hwithdraws] at hq
      cases hq
    have hearlier : ¬ ((initial config).run before).Continues after id :=
      fun hstays => hgone ⟨hstays, hlast⟩
    cases hr : ((initial config).run (before ++ after)).productions[id]? with
    | some r =>
      rcases hrooted.kept (distinguishes_last hops) hr hlast with ⟨q', hq', hsame, -⟩
      rw [hq, Option.some.injEq] at hq'
      rw [hq', hsame]
      exact ih hops.of_append hearlier hr
    | none =>
      have hgiven := generation_le_of_run hp
      have hlater : ((initial config).run before).generation ≤
          ((initial config).run (before ++ after)).generation := by
        rw [run_append]
        exact generation_le_run _ after
      rcases hrooted.origin hq with ⟨old, hold, -⟩ | ⟨hnext, -⟩
      · rw [hr] at hold
        cases hold
      · omega

/-- A production is there without interruption if and only if it is not withdrawn. -/
theorem continues_iff (hops : Unambiguous (before ++ after))
    (hp : ((initial config).run before).productions[id]? = some p) :
    ((initial config).run before).Continues after id ↔
      ∀ early late, after = early ++ late →
        (((initial config).run before).run early).IsRegistered id := by
  constructor
  · rintro hstays early late rfl
    rw [← List.append_assoc] at hops
    rcases production_of_continues hops.of_append hp hstays.of_append with ⟨q, hq, -⟩
    rcases rooted_run config (before ++ early) with ⟨spare, hrooted⟩
    rw [← run_append]
    exact hrooted.isRegistered_iff.2 ⟨q, hq⟩
  · intro hthere step hstep hgone
    rcases mem_trace_iff.1 hstep with ⟨early, late, hafter, hengine⟩
    rcases rooted_run config (before ++ early) with ⟨spare, hrooted⟩
    rw [run_append, ← hengine] at hrooted
    have hregistered := hthere (early ++ [step.2]) late (by simp [hafter])
    rw [run_concat, ← hengine] at hregistered
    rcases hrooted.perform step.2 with ⟨spare', hlater⟩
    rcases hlater.isRegistered_iff.1 hregistered with ⟨q, hq⟩
    rw [hrooted.gone hgone] at hq
    cases hq

end Run

end Engine
end Mandate
