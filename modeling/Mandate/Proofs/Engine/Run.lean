import Mathlib.Data.List.DropRight
import Mandate.Proofs.Engine.News
import Mandate.Proofs.Engine.Registration

/-!
# Runs of an engine

A run is a list of operations in any order and with any arguments.  Every operation keeps the
engine coherent, provided that no two constraints of the run have the same identity.

Main results:

- Definitions `Operation`, `Engine.run`, `Engine.trace`: what can happen, and what has happened.
- Definition `Unambiguous`: identities tell the constraints of a run apart.
- Theorem `Coherent.steps`: what an operation does to a production.
- Theorem `reached`: the engine is coherent after every run.
-/

namespace Mandate

/-- Something that can happen to an engine. -/
inductive Operation
  | add (c : Constraint)
  | remove (id : ConstraintId)
  | applyFacts (news : List FactUpdate) (now : Occasion)
  | applyPull (plan : PullPlan) (news : List FactUpdate) (now : Occasion)

/-- No two constraints of the run have the same identity. -/
def Unambiguous (ops : List Operation) : Prop :=
  ∀ c d, .add c ∈ ops → .add d ∈ ops → ConstraintId.derive c = ConstraintId.derive d → c = d

theorem Unambiguous.of_append {ops more : List Operation} (h : Unambiguous (ops ++ more)) :
    Unambiguous ops := fun c d hc hd =>
  h c d (List.mem_append_left _ hc) (List.mem_append_left _ hd)

namespace Engine

/-- The engine after an operation. -/
def perform (e : Engine) : Operation → Engine
  | .add c => (e.add c).1
  | .remove id => (e.remove id).1
  | .applyFacts news now => (e.applyFacts news now).1
  | .applyPull plan news now => (e.applyPull plan news now).1

theorem perform_applyFacts (e : Engine) (news : List FactUpdate) (now : Occasion) :
    e.perform (.applyFacts news now) = (e.apply news none now).1 :=
  rfl

/-- The engine after a run. -/
def run (e : Engine) (ops : List Operation) : Engine :=
  ops.foldl perform e

/-- The steps of a run, each with the engine before it. -/
def trace (e : Engine) : List Operation → List (Engine × Operation)
  | [] => []
  | op :: ops => (e, op) :: (e.perform op).trace ops

theorem run_concat (e : Engine) (ops : List Operation) (op : Operation) :
    e.run (ops ++ [op]) = (e.run ops).perform op := by
  simp [run]

theorem trace_concat (e : Engine) (ops : List Operation) (op : Operation) :
    e.trace (ops ++ [op]) = e.trace ops ++ [(e.run ops, op)] := by
  induction ops generalizing e with
  | nil => rfl
  | cons first ops ih =>
    rw [List.cons_append, trace, ih, trace, List.cons_append]
    rfl

/-- A step of a run is an operation of the run, with the engine after all operations before it. -/
theorem mem_trace_iff {e : Engine} {ops : List Operation} {step : Engine × Operation} :
    step ∈ e.trace ops ↔
      ∃ before after, ops = before ++ step.2 :: after ∧ step.1 = e.run before := by
  induction ops generalizing e with
  | nil => simp [trace]
  | cons op ops ih =>
    rw [trace, List.mem_cons, ih]
    constructor
    · intro hstep
      rcases hstep with rfl | ⟨before, after, hops, hengine⟩
      · exact ⟨[], ops, rfl, rfl⟩
      · exact ⟨op :: before, after, by rw [hops, List.cons_append], hengine⟩
    · intro hsplit
      rcases hsplit with ⟨before, after, hops, hengine⟩
      cases before with
      | nil =>
        rw [List.nil_append, List.cons.injEq] at hops
        exact Or.inl (Prod.ext hengine hops.1.symm)
      | cons first before =>
        rw [List.cons_append, List.cons.injEq] at hops
        exact Or.inr ⟨before, after, hops.2, hops.1 ▸ hengine⟩

/-! ## What happens to a production -/

/-- The operation registers the identity, as a new one or in the place of another one. -/
def registers (e : Engine) (op : Operation) (id : ConstraintId) : Bool :=
  match op with
  | .add c =>
    match (e.add c).2 with
    | .ok registered => registered.id = id && registered.kind ≠ .unchanged
    | .error _ => false
  | _ => false

/-- The news that the operation supplies to the network. -/
def supplied (e : Engine) : Operation → List FactUpdate
  | .applyFacts news _ => news
  | .applyPull plan news _ =>
    match e.productions[plan.id]? with
    | some p => if p.generation = plan.generation then news.filter (isFresh e.network plan) else []
    | none => []
  | _ => []

/-- The operation applies a pull of the identity. -/
def AppliesPull (e : Engine) (op : Operation) (id : ConstraintId) : Prop :=
  ∃ plan news now status batch, op = .applyPull plan news now ∧ plan.id = id ∧
    (e.applyPull plan news now).2 = .ok (.applied status batch)

/-- The operation applies a pull of the identity, or changes the input of one of the facts. -/
def Evaluates (e : Engine) (op : Operation) (id : ConstraintId) (facts : List FactKey) : Prop :=
  e.AppliesPull op id ∨ ∃ fact ∈ facts, InputChanges e.network (e.supplied op) fact

/-- A production that is there after an operation has been registered by it, or was there before
and waits for its first evaluation as long as the operation does not evaluate it. -/
inductive Steps (e : Engine) (op : Operation) (id : ConstraintId) (p : Production) : Prop
  | registered : e.registers op id = true → op = .add p.constraint → p.state = .unknown →
      Steps e op id p
  | kept {old : Production} : e.registers op id = false → e.productions[id]? = some old →
      p.constraint = old.constraint →
      (p.state = .unknown ↔
        old.state = .unknown ∧ ¬ e.Evaluates op id old.constraint.referencedFacts) →
      Steps e op id p

/-- Without news nothing is evaluated. -/
theorem not_evaluates_of_supplied {e : Engine} {op : Operation} {id : ConstraintId}
    (facts : List FactKey) (hpull : ¬ e.AppliesPull op id) (hnews : e.supplied op = []) :
    ¬ e.Evaluates op id facts := by
  intro hevaluates
  rcases hevaluates with happlies | ⟨fact, -, hchange⟩
  · exact hpull happlies
  · rw [hnews] at hchange
    exact not_inputChanges_nil e.network fact hchange

namespace Coherent

variable {e : Engine} {op : Operation} {id : ConstraintId} {p : Production}

/-- A batch of news keeps the productions, and evaluates those that it concerns. -/
theorem steps_of_applies {after : Engine} {news : List FactUpdate} {asked : Option ConstraintId}
    {now : Occasion} (h : e.Coherent []) (happlies : e.Applies news asked now after)
    (hregisters : e.registers op id = false) (hnews : e.supplied op = news)
    (hasked : asked = some id ↔ e.AppliesPull op id) (hp : after.productions[id]? = some p) :
    e.Steps op id p := by
  rcases exists_left_of_rel (happlies.productions id) hp with ⟨old, hold, hsettles⟩
  have hconcerns : e.Concerns news asked old ↔
      e.Evaluates op id old.constraint.referencedFacts := by
    unfold Concerns Evaluates
    rw [(h.faithful hold).id_eq, hasked, hnews]
  refine .kept hregisters hold hsettles.constraint_eq ?_
  rw [hsettles.unknown_iff, hconcerns]

/-- A registration adds a production that waits, and keeps the others. -/
theorem steps_add {c : Constraint} (h : e.Coherent []) (hc : e.Distinguishes c)
    (hp : (e.add c).1.productions[id]? = some p) : e.Steps (.add c) id p := by
  have hnot : ¬ e.Evaluates (.add c) id p.constraint.referencedFacts :=
    not_evaluates_of_supplied _ (by simp [AppliesPull]) rfl
  rcases (h.adds hc).productions hp with ⟨hold, hkind⟩ | ⟨hconstraint, hunknown, hreply⟩
  · refine .kept ?_ hold rfl (by simp [hnot])
    cases hreply : (e.add c).2 with
    | error reason => simp [registers, hreply]
    | ok registered =>
      by_cases hid : registered.id = id
      · simp [registers, hreply, hkind registered hreply hid]
      · simp [registers, hreply, hid]
  · rcases hreply with ⟨registered, hreply, hid, hkind⟩
    refine .registered ?_ (by rw [hconstraint]) hunknown
    simp [registers, hreply, hid, hkind]

theorem steps_remove {other : ConstraintId} (h : e.Coherent [])
    (hp : (e.remove other).1.productions[id]? = some p) : e.Steps (.remove other) id p := by
  have hnot : ¬ e.Evaluates (.remove other) id p.constraint.referencedFacts :=
    not_evaluates_of_supplied _ (by simp [AppliesPull]) rfl
  exact .kept rfl (h.productions_remove hp) rfl (by simp [hnot])

/-- A pull is a batch of news that asks for its production, or nothing. -/
theorem steps_applyPull {plan : PullPlan} {news : List FactUpdate} {now : Occasion}
    (h : e.Coherent []) (hp : (e.applyPull plan news now).1.productions[id]? = some p) :
    e.Steps (.applyPull plan news now) id p := by
  rcases h.pulls plan news now with
    ⟨q, hq, hgeneration, hafter, status, batch, hreply⟩ | ⟨hgeneration, hafter, hreply⟩
  · have hsupplied : e.supplied (.applyPull plan news now) =
        news.filter (isFresh e.network plan) := by
      simp [supplied, hq, hgeneration]
    have hasked : some plan.id = some id ↔ e.AppliesPull (.applyPull plan news now) id := by
      constructor
      · intro hid
        exact ⟨plan, news, now, status, batch, rfl, Option.some.inj hid, hreply⟩
      · intro happlies
        rcases happlies with ⟨_, _, _, _, _, hop, hid, -⟩
        cases hop
        rw [hid]
    rw [hafter] at hp
    exact h.steps_of_applies (h.applies _ _ now) rfl hsupplied hasked hp
  · have hsupplied : e.supplied (.applyPull plan news now) = [] := by
      cases hq : e.productions[plan.id]? with
      | none => simp [supplied, hq]
      | some q => simp [supplied, hq, hgeneration q hq]
    have hpull : ¬ e.AppliesPull (.applyPull plan news now) id := by
      intro happlies
      rcases happlies with ⟨_, _, _, status, batch, hop, -, happlied⟩
      cases hop
      exact hreply status batch happlied
    have hnot := not_evaluates_of_supplied p.constraint.referencedFacts hpull hsupplied
    rw [hafter] at hp
    exact .kept rfl hp rfl (by simp [hnot])

/-- What an operation does to a production. -/
theorem steps (h : e.Coherent []) (hop : ∀ c, op = .add c → e.Distinguishes c)
    (hp : (e.perform op).productions[id]? = some p) : e.Steps op id p := by
  cases op with
  | add c => exact h.steps_add (hop c rfl) hp
  | remove other => exact h.steps_remove hp
  | applyFacts news now =>
    exact h.steps_of_applies (h.applies news none now) rfl rfl (by simp [AppliesPull]) hp
  | applyPull plan news now => exact h.steps_applyPull hp

theorem perform (h : e.Coherent []) (hop : ∀ c, op = .add c → e.Distinguishes c) :
    (e.perform op).Coherent [] := by
  cases op with
  | add c => exact h.add (hop c rfl)
  | remove id => exact h.remove id
  | applyFacts news now => exact (h.applies news none now).coherent
  | applyPull plan news now =>
    rcases h.pulls plan news now with ⟨p, -, -, hafter, -⟩ | ⟨-, hafter, -⟩
    · change (e.applyPull plan news now).1.Coherent []
      rw [hafter]
      exact (h.applies _ _ now).coherent
    · change (e.applyPull plan news now).1.Coherent []
      rw [hafter]
      exact h

end Coherent

/-! ## Runs -/

/-- What is registered has been added in the run, so nothing else has the identity of a constraint
that the run adds. -/
theorem Coherent.distinguishes {e : Engine} {ops : List Operation} {c : Constraint}
    (h : e.Coherent []) (hadded : ∀ (id : ConstraintId) (p : Production),
      e.productions[id]? = some p → .add p.constraint ∈ ops)
    (hc : .add c ∈ ops) (hops : Unambiguous ops) : e.Distinguishes c := by
  intro p hp
  exact hops p.constraint c (hadded _ p hp) hc (h.faithful hp).derived.symm

/-- After a run the engine is coherent, and all that is registered has been added. -/
theorem reached (config : RegistryConfig) (ops : List Operation) (hops : Unambiguous ops) :
    ((initial config).run ops).Coherent [] ∧
      ∀ (id : ConstraintId) (p : Production),
        ((initial config).run ops).productions[id]? = some p → .add p.constraint ∈ ops := by
  induction ops using List.reverseRecOn with
  | nil =>
    refine ⟨coherent_initial config, ?_⟩
    intro id p hp
    simp [run, initial] at hp
  | append_singleton ops op ih =>
    rcases ih hops.of_append with ⟨hcoherent, hadded⟩
    have hop : ∀ c, op = .add c → ((initial config).run ops).Distinguishes c := by
      intro c hc
      exact hcoherent.distinguishes (fun id p hp => List.mem_append_left _ (hadded id p hp))
        (by simp [hc]) hops
    rw [run_concat]
    refine ⟨hcoherent.perform hop, ?_⟩
    intro id p hp
    cases hcoherent.steps hop hp with
    | registered _ hadd _ => simp [hadd]
    | @kept old _ hold hconstraint _ =>
      rw [hconstraint]
      exact List.mem_append_left _ (hadded id old hold)

/-- Every step of a run starts from a coherent engine, and what it adds has its own identity. -/
theorem reached_of_mem_trace {config : RegistryConfig} {ops : List Operation}
    (hops : Unambiguous ops) {step : Engine × Operation}
    (hstep : step ∈ (initial config).trace ops) :
    step.1.Coherent [] ∧ ∀ c, step.2 = .add c → step.1.Distinguishes c := by
  rcases mem_trace_iff.1 hstep with ⟨before, after, rfl, hengine⟩
  rcases reached config before hops.of_append with ⟨hcoherent, hadded⟩
  rw [hengine]
  refine ⟨hcoherent, ?_⟩
  intro c hc
  exact hcoherent.distinguishes (fun id p hp => List.mem_append_left _ (hadded id p hp))
    (by simp [hc]) hops

/-! ## A run of two constraints -/

/-- The constraint that a permission is active only while it is delegated again. -/
def redelegation (permission : PermId) : Constraint :=
  ⟨permission, .base .inactiveUnlessRedelegated⟩

theorem redelegation_lowers (permission : PermId) :
    (redelegation permission).Lowers (.fact (.redelegated permission)) :=
  .base .inactiveUnlessRedelegated

/-- Two permissions are put under the same rule, and news about one of them comes in. -/
def twoRedelegations : List Operation :=
  [.add (redelegation ⟨"p"⟩), .add (redelegation ⟨"q"⟩),
    .applyFacts [⟨.redelegated ⟨"p"⟩, some (.bool true)⟩] 0]

/-- Permissions that differ in their first letter have constraints with different identities. -/
theorem derive_ne_of_head {c d : Constraint} {x y : Char} {xs ys : List Char}
    (hc : c.permission.text.toList = x :: xs) (hd : d.permission.text.toList = y :: ys)
    (hne : x ≠ y) : ConstraintId.derive c ≠ ConstraintId.derive d := by
  intro heq
  have htext := congrArg (fun id => id.text.toList) heq
  simp only [ConstraintId.derive, ConstraintId.permissionLength, String.toList_append,
    String.toList_ofList, hc, hd, List.append_assoc, List.append_cancel_left_eq,
    List.take_succ_cons, List.cons_append, List.cons.injEq] at htext
  exact hne htext.1

theorem derive_redelegation_ne :
    ConstraintId.derive (redelegation ⟨"p"⟩) ≠ ConstraintId.derive (redelegation ⟨"q"⟩) := by
  have hp : (redelegation ⟨"p"⟩).permission.text.toList = ['p'] := by decide
  have hq : (redelegation ⟨"q"⟩).permission.text.toList = ['q'] := by decide
  exact derive_ne_of_head hp hq (by decide)

theorem unambiguous_twoRedelegations : Unambiguous twoRedelegations := by
  intro c d hc hd heq
  simp only [twoRedelegations, List.mem_cons, Operation.add.injEq, reduceCtorEq,
    List.not_mem_nil, or_false] at hc hd
  rcases hc with rfl | rfl
  · rcases hd with rfl | rfl
    · rfl
    · exact (derive_redelegation_ne heq).elim
  · rcases hd with rfl | rfl
    · exact (derive_redelegation_ne heq.symm).elim
    · rfl

/-- The first constraint is still registered in the end. -/
theorem exists_production_twoRedelegations (config : RegistryConfig) :
    ∃ p, ((initial config).run twoRedelegations).productions[
      ConstraintId.derive (redelegation ⟨"p"⟩)]? = some p := by
  have hunambiguous : Unambiguous [.add (redelegation ⟨"p"⟩), .add (redelegation ⟨"q"⟩)] :=
    fun c d hc hd => unambiguous_twoRedelegations c d (List.mem_append_left [_] hc)
      (List.mem_append_left [_] hd)
  have hcoherent := (reached config _ hunambiguous).1
  have hpermission : (redelegation ⟨"q"⟩).permission ≠ (redelegation ⟨"p"⟩).permission := by decide
  have hfirst : (initial config).registry.owner? (redelegation ⟨"p"⟩).permission = none := by
    simp [initial, Registry.owner?]
  have hsecond : ((initial config).add (redelegation ⟨"p"⟩)).1.registry.owner?
      (redelegation ⟨"q"⟩).permission = none :=
    (owner?_add_of_free hfirst (redelegation_lowers _) _).trans (if_neg hpermission)
  have hp : ∃ p, ((initial config).run
      [.add (redelegation ⟨"p"⟩), .add (redelegation ⟨"q"⟩)]).productions[
        ConstraintId.derive (redelegation ⟨"p"⟩)]? = some p := by
    simp only [run, perform, List.foldl_cons, List.foldl_nil]
    rw [productions_add_of_free hsecond (redelegation_lowers _), if_neg derive_redelegation_ne,
      productions_add_of_free hfirst (redelegation_lowers _), if_pos rfl]
    exact ⟨_, rfl⟩
  rcases hp with ⟨p, hp⟩
  have hrel := (hcoherent.applies [⟨.redelegated ⟨"p"⟩, some (.bool true)⟩] none 0).productions
    (ConstraintId.derive (redelegation ⟨"p"⟩))
  rcases exists_right_of_rel hrel hp with ⟨q, hq, -⟩
  have htwo : twoRedelegations =
      [.add (redelegation ⟨"p"⟩), .add (redelegation ⟨"q"⟩)] ++
        [.applyFacts [⟨.redelegated ⟨"p"⟩, some (.bool true)⟩] 0] := rfl
  rw [htwo, run_concat, perform_applyFacts]
  exact ⟨q, hq⟩

end Engine
end Mandate
