import Mandate.Proofs.Engine.Registration

/-!
# Outcomes of registrations

What a registration comes to on any engine whatever, also one in which two constraints have the same
identity: it is refused, it finds the constraint registered, or the circuit is built, room is made,
and the constraint is entered.

Main results:

- Definition `Refuses`: the reasons for which an engine refuses a constraint.
- Definition `Outcome`: the outcomes of a registration.
- Theorem `add_outcome`: a registration has one of them.
- Theorem `add_error_iff`: a registration fails if and only if the engine refuses the constraint.
-/

namespace Mandate
namespace Engine

/-- The permission of the constraint is free, or stands for another identity that may be replaced. -/
structure Admits (e : Engine) (c : Constraint) (old : Option ConstraintId) : Prop where
  owner : e.registry.owner? c.permission = old
  other : old ≠ some (ConstraintId.derive c)
  policy : old = none ∨ e.config.duplicatePolicy = .replace

/-- The reasons for which a constraint is not registered. -/
inductive Refuses (e : Engine) (c : Constraint) : ServiceError → Prop
  /-- The permission stands for another identity, which may not be replaced. -/
  | duplicate {existing : ConstraintId} :
      e.registry.owner? c.permission = some existing → existing ≠ ConstraintId.derive c →
      e.config.duplicatePolicy = .reject → Refuses e c (.duplicate c.permission existing)
  /-- The constraint has no circuit. -/
  | notCompiled {old : Option ConstraintId} {error : CompileError} :
      e.Admits c old → c.check = .error error →
      Refuses e c (.notCompiled (ConstraintId.derive c) error)

/-- The engine with a circuit on top of its network and without the production that is to be
replaced, and the facts that are no longer followed. -/
def makeRoom (e : Engine) (circuit : Circuit) : Option ConstraintId → Engine × List FactKey
  | none => ({ e with network := (e.network.build circuit).network }, [])
  | some old => ({ e with network := (e.network.build circuit).network } : Engine).displace old

/-- The engine after a constraint with the circuit has been registered. -/
def registered (e : Engine) (c : Constraint) (circuit : Circuit) (old : Option ConstraintId) :
    Engine :=
  (e.makeRoom circuit old).1.enter (ConstraintId.derive c) c (e.network.build circuit).root

/-- The outcomes of a registration. -/
inductive Outcome (e : Engine) (c : Constraint) : Engine → Except ServiceError Registered → Prop
  | refused {reason : ServiceError} : e.Refuses c reason → Outcome e c e (.error reason)
  | unchanged :
      e.registry.owner? c.permission = some (ConstraintId.derive c) →
      Outcome e c e (.ok ⟨ConstraintId.derive c, .unchanged, [], []⟩)
  | installed {old : Option ConstraintId} {circuit : Circuit} :
      e.Admits c old → c.Lowers circuit →
      Outcome e c (e.registered c circuit old)
        (.ok ⟨ConstraintId.derive c, kindOf old, (e.network.build circuit).newFacts,
          (e.makeRoom circuit old).2⟩)

/-- A constraint that is admitted is installed if it has a circuit. -/
theorem install_outcome {e : Engine} {c : Constraint} {old : Option ConstraintId}
    (h : e.Admits c old) :
    e.Outcome c (e.install (ConstraintId.derive c) c old).1
      (e.install (ConstraintId.derive c) c old).2 := by
  unfold install
  cases hcompile : e.network.compile c with
  | error reason =>
    exact .refused (.notCompiled h ((e.network.compile_eq_error_iff c reason).1 hcompile))
  | ok built =>
    rcases (e.network.compile_eq_ok_iff c built).1 hcompile with ⟨circuit, hlowers, rfl⟩
    have hinstalled : e.Outcome c _ _ := .installed h hlowers
    cases old with
    | none => exact hinstalled
    | some old => exact hinstalled

/-- Every registration has one of the outcomes. -/
theorem add_outcome (e : Engine) (c : Constraint) : e.Outcome c (e.add c).1 (e.add c).2 := by
  have howners : e.registry.owners[c.permission]? = e.registry.owner? c.permission := rfl
  cases howner : e.registry.owner? c.permission with
  | none =>
    have hadd : e.add c = e.install (ConstraintId.derive c) c none := by
      simp only [add, Registry.admission, howners, howner]
    rw [hadd]
    exact install_outcome ⟨howner, by simp, Or.inl rfl⟩
  | some old =>
    by_cases hsame : old = ConstraintId.derive c
    · have hadd : e.add c = (e, .ok ⟨ConstraintId.derive c, .unchanged, [], []⟩) := by
        simp only [add, Registry.admission, howners, howner, if_pos hsame]
      rw [hadd]
      exact .unchanged (hsame ▸ howner)
    · cases hpolicy : e.config.duplicatePolicy with
      | reject =>
        have hadd : e.add c = (e, .error (.duplicate c.permission old)) := by
          simp only [add, Registry.admission, howners, howner, if_neg hsame, hpolicy]
        rw [hadd]
        exact .refused (.duplicate howner hsame hpolicy)
      | replace =>
        have hadd : e.add c = e.install (ConstraintId.derive c) c (some old) := by
          simp only [add, Registry.admission, howners, howner, if_neg hsame, hpolicy]
        rw [hadd]
        exact install_outcome ⟨howner, by simpa using hsame, Or.inr hpolicy⟩

/-! ## Refusals -/

/-- A constraint that is admitted is not refused as a duplicate. -/
theorem Admits.not_reject {e : Engine} {c : Constraint} {old : Option ConstraintId}
    {existing : ConstraintId} (h : e.Admits c old)
    (howner : e.registry.owner? c.permission = some existing) :
    e.config.duplicatePolicy ≠ .reject := by
  intro hpolicy
  rcases h.policy with hnone | hreplace
  · rw [h.owner, hnone] at howner
    cases howner
  · rw [hpolicy] at hreplace
    cases hreplace

/-- There is one reason at most. -/
theorem Refuses.unique {e : Engine} {c : Constraint} {reason reason' : ServiceError}
    (h : e.Refuses c reason) (h' : e.Refuses c reason') : reason = reason' := by
  cases h with
  | duplicate howner hne hpolicy =>
    cases h' with
    | duplicate howner' _ _ =>
      rw [howner, Option.some.injEq] at howner'
      rw [howner']
    | notCompiled hadmits _ => exact (hadmits.not_reject howner hpolicy).elim
  | notCompiled hadmits hcheck =>
    cases h' with
    | duplicate howner' _ hpolicy => exact (hadmits.not_reject howner' hpolicy).elim
    | notCompiled _ hcheck' =>
      rw [hcheck, Except.error.injEq] at hcheck'
      rw [hcheck']

/-- A constraint that is refused is not what its permission stands for. -/
theorem Refuses.owner_ne {e : Engine} {c : Constraint} {reason : ServiceError}
    (h : e.Refuses c reason) :
    e.registry.owner? c.permission ≠ some (ConstraintId.derive c) := by
  cases h with
  | duplicate howner hne _ =>
    rw [howner]
    simpa using hne
  | notCompiled hadmits _ =>
    rw [hadmits.owner]
    exact hadmits.other

/-- A registration fails if and only if the engine refuses the constraint, with the reason that it
has. -/
theorem add_error_iff (e : Engine) (c : Constraint) (reason : ServiceError) :
    (e.add c).2 = .error reason ↔ e.Refuses c reason := by
  have houtcome := e.add_outcome c
  generalize (e.add c).1 = after at houtcome
  generalize (e.add c).2 = reply at houtcome
  cases houtcome with
  | refused hrefuses =>
    rw [Except.error.injEq]
    exact ⟨fun heq => heq ▸ hrefuses, fun h => hrefuses.unique h⟩
  | unchanged howner => exact ⟨nofun, fun h => (h.owner_ne howner).elim⟩
  | @installed old circuit hadmits hlowers =>
    refine ⟨nofun, fun h => ?_⟩
    cases h with
    | duplicate howner _ hpolicy => exact (hadmits.not_reject howner hpolicy).elim
    | notCompiled _ hcheck =>
      rw [hlowers.check_eq_ok] at hcheck
      cases hcheck

/-- A registration that fails leaves the engine as it is. -/
theorem add_of_error {e : Engine} {c : Constraint} {reason : ServiceError}
    (h : (e.add c).2 = .error reason) : (e.add c).1 = e := by
  have houtcome := e.add_outcome c
  rw [h] at houtcome
  generalize (e.add c).1 = after at houtcome
  cases houtcome with
  | refused _ => rfl

/-- A registration that reports no change has made none. -/
theorem add_of_unchanged {e : Engine} {c : Constraint} {registered : Registered}
    (h : (e.add c).2 = .ok registered) (hkind : registered.kind = .unchanged) :
    (e.add c).1 = e := by
  have houtcome := e.add_outcome c
  rw [h] at houtcome
  generalize (e.add c).1 = after at houtcome ⊢
  cases houtcome with
  | unchanged _ => rfl
  | @installed old _ _ _ => cases old <;> cases hkind

/-- A constraint that its permission stands for is registered already. -/
theorem add_of_owner {e : Engine} {c : Constraint}
    (h : e.registry.owner? c.permission = some (ConstraintId.derive c)) :
    e.add c = (e, .ok ⟨ConstraintId.derive c, .unchanged, [], []⟩) := by
  have howner : e.registry.owners[c.permission]? = some (ConstraintId.derive c) := h
  simp only [add, Registry.admission, howner, if_true]

theorem remove_of_none {e : Engine} {id : ConstraintId} (h : e.productions[id]? = none) :
    e.remove id = (e, .error (.notFound id)) := by
  simp only [remove, h]

/-! ## Settings and registrations -/

theorem config_displace (e : Engine) (id : ConstraintId) :
    (e.displace id).1.config = e.config := by
  unfold displace
  cases e.productions[id]? <;> rfl

theorem generation_displace (e : Engine) (id : ConstraintId) :
    (e.displace id).1.generation = e.generation := by
  unfold displace
  cases e.productions[id]? <;> rfl

theorem sequence_displace (e : Engine) (id : ConstraintId) :
    (e.displace id).1.sequence = e.sequence := by
  unfold displace
  cases e.productions[id]? <;> rfl

theorem config_registered (e : Engine) (c : Constraint) (circuit : Circuit)
    (old : Option ConstraintId) : (e.registered c circuit old).config = e.config := by
  cases old with
  | none => rfl
  | some old => exact config_displace _ old

/-- Every registration is counted. -/
theorem generation_registered (e : Engine) (c : Constraint) (circuit : Circuit)
    (old : Option ConstraintId) :
    (e.registered c circuit old).generation = e.generation + 1 := by
  cases old with
  | none => rfl
  | some old => exact congrArg (· + 1) (generation_displace _ old)

/-- A registration writes no record. -/
theorem sequence_registered (e : Engine) (c : Constraint) (circuit : Circuit)
    (old : Option ConstraintId) : (e.registered c circuit old).sequence = e.sequence := by
  cases old with
  | none => rfl
  | some old => exact sequence_displace _ old

end Engine
end Mandate
