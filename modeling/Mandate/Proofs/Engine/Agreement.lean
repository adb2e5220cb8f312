import Mandate.Proofs.Engine.History
import Mandate.Proofs.Engine.Isolation

/-!
# Agreement

An engine keeps what it knows about its constraints in four maps: the constraints by identity, the
identities by permission, the productions, and the histories of what is gone.  After every operation
they agree with each other.

Main results:

- Definition `Agrees`: registry, productions and retired histories fit together.
- Definition `Registers`: what a successful registration does to the registry.
- Theorem `generationsIn_run`: a run hands out the generations from one on.
- Theorem `registry_of_run`: the registry after every run.
-/

namespace Mandate
namespace Engine

/-- Registry, productions and retired histories fit together. -/
structure Agrees (e : Engine) : Prop where
  registered : ∀ id, e.registry.get? id = e.productions[id]?.map Production.constraint
  derived : ∀ id c, e.registry.get? id = some c → id = ConstraintId.derive c
  owners : ∀ permission id, e.registry.owner? permission = some id ↔
    ∃ c, e.registry.get? id = some c ∧ c.permission = permission
  apart : ∀ (id : ConstraintId) (p : Production), e.productions[id]? = some p →
    e.retired[id]? = none

theorem Coherent.agrees {e : Engine} {spare : List NodeId} (h : e.Coherent spare)
    (hchronicled : e.Chronicled) : e.Agrees where
  registered := h.registered
  derived := by
    intro id c hget
    rw [h.registered, Option.map_eq_some_iff] at hget
    rcases hget with ⟨p, hp, rfl⟩
    exact (h.faithful hp).derived
  owners := h.registry
  apart := fun _ _ hp => hchronicled.apart hp

/-- A permission has one constraint at most. -/
theorem Agrees.eq_of_permission {e : Engine} (h : e.Agrees) {id other : ConstraintId}
    {c d : Constraint} (hid : e.registry.get? id = some c) (hother : e.registry.get? other = some d)
    (hpermission : c.permission = d.permission) : id = other := by
  have howner : e.registry.owner? d.permission = some id := (h.owners _ _).2 ⟨c, hid, hpermission⟩
  have howner' : e.registry.owner? d.permission = some other := (h.owners _ _).2 ⟨d, hother, rfl⟩
  exact Option.some.inj (howner.symm.trans howner')

/-! ## Registrations -/

/-- The constraint stands under its identity and its permission, and all others have stayed, but for
one of the same permission that could be replaced. -/
structure Registers (e : Engine) (c : Constraint) (after : Engine) : Prop where
  get? : after.registry.get? (ConstraintId.derive c) = some c
  owner? : after.registry.owner? c.permission = some (ConstraintId.derive c)
  others : ∀ id d, e.registry.get? id = some d → after.registry.get? id = some d ∨
    (after.registry.get? id = none ∧ d.permission = c.permission ∧
      e.config.duplicatePolicy = .replace)

/-- What a registration replaces is what the permission stood for, and the engine may replace it. -/
theorem owner_of_replaced {e : Engine} {c : Constraint} {registered : Registered}
    {old : ConstraintId} (hreply : (e.add c).2 = .ok registered)
    (hkind : registered.kind = .replaced old) :
    e.registry.owner? c.permission = some old ∧ e.config.duplicatePolicy = .replace := by
  have houtcome := e.add_outcome c
  rw [hreply] at houtcome
  generalize (e.add c).1 = after at houtcome
  cases houtcome with
  | unchanged _ => cases hkind
  | @installed gone _ hadmits _ =>
    have hgone : gone = some old := kindOf_eq_replaced_iff.1 hkind
    subst hgone
    exact ⟨hadmits.owner, hadmits.policy.resolve_left (Option.some_ne_none old)⟩

/-- A registration that succeeds leaves the constraint with a production. -/
theorem Adds.exists_production {e after : Engine} {c : Constraint} {registered : Registered}
    (ha : e.Adds c after (.ok registered)) (hc : e.Distinguishes c) :
    registered.id = ConstraintId.derive c ∧
      ∃ p, after.productions[ConstraintId.derive c]? = some p ∧ p.constraint = c := by
  cases ha with
  | unchanged hp => exact ⟨rfl, _, hp, hc _ hp⟩
  | installed _ _ _ _ _ =>
    refine ⟨rfl, _, (productions_enter _ _ _ _ _).trans (if_pos rfl), rfl⟩

/-- What a registration replaces has no production any more. -/
theorem Adds.gone {e after : Engine} {c : Constraint} {registered : Registered}
    {old : ConstraintId} (ha : e.Adds c after (.ok registered)) (h : e.Coherent [])
    (hkind : registered.kind = .replaced old) : after.productions[old]? = none := by
  cases ha with
  | unchanged _ => cases hkind
  | @installed gone circuit built room dropped hnew howner hlowers hbuilds hleaves =>
    have hgone : gone = some old := kindOf_eq_replaced_iff.1 hkind
    subst hgone
    rcases (h.owner_iff _ _).1 howner with ⟨p, hp, -⟩
    have hne : old ≠ ConstraintId.derive c := by
      rintro rfl
      rw [hp] at hnew
      cases hnew
    rw [productions_enter, if_neg hne]
    cases hq : room.productions[old]? with
    | none => rfl
    | some q => exact (((hleaves.productions old q).1 hq).1 rfl).elim

/-- A registration that succeeds registers its constraint. -/
theorem Coherent.registers {e : Engine} {c : Constraint} {registered : Registered}
    (h : e.Coherent []) (hc : e.Distinguishes c) (hreply : (e.add c).2 = .ok registered) :
    registered.id = ConstraintId.derive c ∧ e.Registers c (e.add c).1 := by
  have hadds := h.adds hc
  rw [hreply] at hadds
  have hafter := hadds.coherent h
  rcases hadds.exists_production hc with ⟨hid, p, hp, hconstraint⟩
  refine ⟨hid, ?_, ?_, ?_⟩
  · rw [hafter.registered, hp, Option.map_some, hconstraint]
  · exact (hafter.owner_iff _ _).2 ⟨p, hp, by rw [hconstraint]⟩
  · intro id d hget
    have hbefore := hget
    rw [h.registered, Option.map_eq_some_iff] at hget
    rcases hget with ⟨q, hq, hd⟩
    by_cases hkind : registered.kind = .replaced id
    · right
      rcases owner_of_replaced hreply hkind with ⟨howner, hpolicy⟩
      rcases (h.registry _ _).1 howner with ⟨d', hget', hpermission⟩
      rw [hbefore, Option.some.injEq] at hget'
      refine ⟨?_, hget' ▸ hpermission, hpolicy⟩
      rw [hafter.registered, hadds.gone h hkind, Option.map_none]
    · left
      rw [hafter.registered, (hadds.undisturbed h).production hq hkind, Option.map_some, hd]

/-! ## Generations -/

/-- The generation of the production that an operation enters, if it enters one. -/
def handedOut (e : Engine) : Operation → Option Nat
  | .add c =>
    match (e.add c).2 with
    | .ok registered =>
      if registered.kind = .unchanged then none
      else (e.add c).1.productions[registered.id]?.map Production.generation
    | .error _ => none
  | _ => none

/-- An operation hands out the next generation, or none. -/
theorem handedOut_cases (e : Engine) (op : Operation) :
    (e.handedOut op = some (e.generation + 1) ∧ (e.perform op).generation = e.generation + 1) ∨
      (e.handedOut op = none ∧ (e.perform op).generation = e.generation) := by
  cases op with
  | add c =>
    have houtcome := e.add_outcome c
    simp only [handedOut, perform]
    generalize (e.add c).1 = after at houtcome ⊢
    generalize (e.add c).2 = reply at houtcome ⊢
    cases houtcome with
    | refused _ => exact Or.inr ⟨rfl, rfl⟩
    | unchanged _ => exact Or.inr ⟨rfl, rfl⟩
    | @installed old circuit _ _ =>
      left
      have hkind : kindOf old ≠ .unchanged := by cases old <;> simp [kindOf]
      have hentered := productions_enter (e.makeRoom circuit old).1 (ConstraintId.derive c) c
        (e.network.build circuit).root (ConstraintId.derive c)
      rw [if_pos rfl] at hentered
      refine ⟨(if_neg hkind).trans ?_, generation_registered e c circuit old⟩
      rw [← generation_registered e c circuit old]
      exact congrArg (Option.map Production.generation) hentered
  | remove id =>
    refine Or.inr ⟨rfl, ?_⟩
    simp only [perform, remove]
    cases e.productions[id]? <;> rfl
  | applyFacts news now => exact Or.inr ⟨rfl, rfl⟩
  | applyPull plan news now =>
    refine Or.inr ⟨rfl, ?_⟩
    rcases e.perform_applyPull plan news now with hafter | ⟨hafter, -⟩
    · rw [hafter]
      rfl
    · rw [hafter]

/-- All generations that a run hands out, in order. -/
def generationsIn (e : Engine) (ops : List Operation) : List Nat :=
  (e.trace ops).filterMap fun step => step.1.handedOut step.2

/-- A run hands out the generations from one on. -/
theorem generationsIn_run (config : RegistryConfig) (ops : List Operation) :
    (initial config).generationsIn ops =
      List.range' 1 ((initial config).run ops).generation := by
  induction ops using List.reverseRecOn with
  | nil => rfl
  | append_singleton ops op ih =>
    have hconcat : (initial config).generationsIn (ops ++ [op]) =
        (initial config).generationsIn ops ++
          (((initial config).run ops).handedOut op).toList := by
      simp only [generationsIn, trace_concat, List.filterMap_append, List.filterMap_cons,
        List.filterMap_nil]
      cases ((initial config).run ops).handedOut op <;> rfl
    rw [hconcat, ih, run_concat]
    rcases ((initial config).run ops).handedOut_cases op with
      ⟨hnext, hgeneration⟩ | ⟨hnone, hgeneration⟩
    · rw [hnext, hgeneration, List.range'_1_concat, Nat.add_comm 1]
      rfl
    · rw [hnone, hgeneration]
      exact List.append_nil _

/-! ## Runs -/

/-- After every run registry, productions and retired histories fit together: an identity is
registered if and only if it has a production, it is the identity of its constraint, a permission
stands for it if and only if its constraint has that permission, so no permission has two of them,
and no identity with a production has a retired history.  No generation has been handed out twice.
In every step a registration that succeeds leaves its constraint under its identity and its
permission, and removes no other one, unless that has the same permission and may be replaced. -/
theorem registry_of_run (config : RegistryConfig) (ops : List Operation) (hops : Unambiguous ops) :
    let e := (initial config).run ops
    e.Agrees ∧
      (∀ id other c d, e.registry.get? id = some c → e.registry.get? other = some d →
        c.permission = d.permission → id = other) ∧
      ((initial config).generationsIn ops).Nodup ∧
      ∀ step ∈ (initial config).trace ops, ∀ c registered, step.2 = .add c →
        (step.1.add c).2 = .ok registered →
          registered.id = ConstraintId.derive c ∧ step.1.Registers c (step.1.add c).1 := by
  intro e
  have hagrees : e.Agrees := (reached config ops hops).1.agrees (chronicled_run config hops)
  refine ⟨hagrees, ?_, ?_, ?_⟩
  · intro id other c d
    exact hagrees.eq_of_permission
  · rw [generationsIn_run]
    exact List.nodup_range'
  · intro step hstep c registered hadd hreply
    rcases reached_of_mem_trace hops hstep with ⟨hcoherent, hop⟩
    exact hcoherent.registers (hop c hadd) hreply

/-! ## A constraint that takes the place of another one -/

/-- The constraint that a permission is active only while it is not delegated again. -/
def reversed : Constraint :=
  ⟨⟨"p"⟩, .not (.base .inactiveUnlessRedelegated)⟩

theorem reversed_lowers : reversed.Lowers (.unary .not (.fact (.redelegated ⟨"p"⟩))) :=
  .not (.base .inactiveUnlessRedelegated)

theorem derive_redelegation_ne_reversed :
    ConstraintId.derive (redelegation ⟨"p"⟩) ≠ ConstraintId.derive reversed := by
  decide +kernel

/-- A constraint is registered, and then another one for the same permission. -/
def reversing : List Operation :=
  [.add (redelegation ⟨"p"⟩), .add reversed]

theorem unambiguous_reversing : Unambiguous reversing := by
  intro c d hc hd heq
  simp only [reversing, List.mem_cons, Operation.add.injEq, List.not_mem_nil, or_false] at hc hd
  rcases hc with rfl | rfl
  · rcases hd with rfl | rfl
    · rfl
    · exact (derive_redelegation_ne_reversed heq).elim
  · rcases hd with rfl | rfl
    · exact (derive_redelegation_ne_reversed heq.symm).elim
    · rfl

/-- An engine that may replace constraints registers all that have a circuit. -/
theorem exists_registered_of_replace {e : Engine} {c : Constraint} {circuit : Circuit}
    (hpolicy : e.config.duplicatePolicy = .replace) (hlowers : c.Lowers circuit) :
    ∃ registered, (e.add c).2 = .ok registered := by
  cases hreply : (e.add c).2 with
  | ok registered => exact ⟨registered, rfl⟩
  | error reason =>
    cases (e.add_error_iff c reason).1 hreply with
    | duplicate _ _ hreject =>
      rw [hpolicy] at hreject
      cases hreject
    | notCompiled _ hcheck =>
      rw [hlowers.check_eq_ok] at hcheck
      cases hcheck

/-- The two registrations are the steps of the run. -/
theorem trace_reversing (e : Engine) :
    e.trace reversing = [(e, .add (redelegation ⟨"p"⟩)),
      ((e.add (redelegation ⟨"p"⟩)).1, .add reversed)] :=
  rfl

theorem run_reversing (e : Engine) :
    e.run reversing = ((e.add (redelegation ⟨"p"⟩)).1.add reversed).1 :=
  rfl

/-- The constraint that comes later is registered in the end, and the other one is not. -/
theorem registry_reversing :
    Unambiguous reversing ∧
      let e := (initial { duplicatePolicy := .replace }).run reversing
      e.Agrees ∧ e.registry.get? (ConstraintId.derive reversed) = some reversed ∧
        e.registry.owner? ⟨"p"⟩ = some (ConstraintId.derive reversed) ∧
        e.registry.get? (ConstraintId.derive (redelegation ⟨"p"⟩)) = none := by
  refine ⟨unambiguous_reversing, ?_⟩
  intro e
  have hrun := registry_of_run { duplicatePolicy := .replace } reversing unambiguous_reversing
  have hregisters : ∀ (e : Engine) c registered,
      (e, .add c) ∈ (initial { duplicatePolicy := .replace }).trace reversing →
        (e.add c).2 = .ok registered → e.Registers c (e.add c).1 :=
    fun e c registered hstep hreply => (hrun.2.2.2 (e, .add c) hstep c registered rfl hreply).2
  rw [trace_reversing] at hregisters
  have hmiddle : ((initial { duplicatePolicy := .replace }).add
      (redelegation ⟨"p"⟩)).1.config.duplicatePolicy = .replace :=
    congrArg RegistryConfig.duplicatePolicy
      (config_perform (initial { duplicatePolicy := .replace }) (.add (redelegation ⟨"p"⟩)))
  rcases exists_registered_of_replace (e := initial { duplicatePolicy := .replace }) rfl
    (redelegation_lowers ⟨"p"⟩) with ⟨_, hfirst⟩
  rcases exists_registered_of_replace hmiddle reversed_lowers with ⟨_, hsecond⟩
  have hold := (hregisters _ _ _ List.mem_cons_self hfirst).get?
  have hnew := hregisters _ _ _ (List.mem_cons_of_mem _ List.mem_cons_self) hsecond
  rw [← run_reversing] at hnew
  refine ⟨hrun.1, hnew.get?, hnew.owner?, ?_⟩
  rcases hnew.others _ _ hold with hstays | ⟨hgone, -⟩
  · exact (derive_redelegation_ne_reversed (hrun.2.1 _ _ _ _ hstays hnew.get? rfl)).elim
  · exact hgone

end Engine
end Mandate
