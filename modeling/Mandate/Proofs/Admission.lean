import Mandate.Proofs.Engine.Rooted
import Mandate.Scenario

/-!
# Registering by admission

Whoever registers a constraint asks for admission and does what the answer says.  Admission looks at
the permission, while an entry is found by its identity, and identities are handed in from outside.
So a constraint that is admitted under the identity of a constraint of another permission takes the
entry of that one, whose permission then stands for a constraint that is not its own.  As long as
this does not happen the index of permissions agrees with the entries.

Main results:

- Definitions `Registry.register`, `RegistryCall`, `Registry.trace`: the discipline, and its runs.
- Definition `Registry.Overwrites`: a registration takes the entry of another permission.
- Theorems `Sound.perform_iff`, `Sound.keepsOthers_iff`: what a call does to a sound registry.
- Theorem `Owning.run`: the half of the agreement that holds under all identities.
- Theorem `consistent_run_iff`: which runs keep the index in agreement with the entries.
- Theorem `Engine.Rooted.registry_add`: the engine keeps to the discipline.
-/

namespace Mandate

/-- A call that changes the registry. -/
inductive RegistryCall
  | register (id : ConstraintId) (c : Constraint) (policy : DuplicatePolicy)
  | remove (id : ConstraintId)

namespace Registry

variable {r : Registry} {id : ConstraintId} {c : Constraint} {policy : DuplicatePolicy}

/-! ## Calls -/

/-- A registration asks for admission and does what the answer says. -/
def register (r : Registry) (id : ConstraintId) (c : Constraint) (policy : DuplicatePolicy) :
    Registry :=
  match r.admission id c.permission policy with
  | .error _ => r
  | .ok .existing => r
  | .ok .new => r.insert id c
  | .ok (.replaces old) => (r.erase old).insert id c

/-- The registry after a call. -/
def perform (r : Registry) : RegistryCall → Registry
  | .register id c policy => r.register id c policy
  | .remove id => r.erase id

/-- The registry after a run. -/
def run (r : Registry) (calls : List RegistryCall) : Registry :=
  calls.foldl perform r

/-- The calls of a run, each with the registry before it. -/
def trace (r : Registry) : List RegistryCall → List (Registry × RegistryCall)
  | [] => []
  | call :: calls => (r, call) :: (r.perform call).trace calls

/-- The answer lets the constraint in. -/
def Admits (r : Registry) (id : ConstraintId) (c : Constraint) (policy : DuplicatePolicy) : Prop :=
  r.admission id c.permission policy = .ok .new ∨
    ∃ old, r.admission id c.permission policy = .ok (.replaces old)

/-- A constraint is let in under an identity that stands for a constraint of another permission. -/
def Overwrites (r : Registry) : RegistryCall → Prop
  | .register id c policy =>
    r.Admits id c policy ∧ ∃ d, r.get? id = some d ∧ d.permission ≠ c.permission
  | .remove _ => False

/-- A registration leaves the constraints of other permissions where they are. -/
def KeepsOthers (r : Registry) : RegistryCall → Prop
  | .register id c policy =>
    ∀ other d, r.get? other = some d → d.permission ≠ c.permission →
      (r.register id c policy).get? other = some d
  | .remove _ => True

/-! ## Making room -/

/-- The registry without the constraint that a permission stands for. -/
def vacate (r : Registry) (permission : PermId) : Registry :=
  match r.owner? permission with
  | none => r
  | some old => r.erase old

theorem admission_of_none (h : r.owner? c.permission = none) :
    r.admission id c.permission policy = .ok .new := by
  unfold owner? at h
  simp only [admission, h]

theorem admission_of_some {old : ConstraintId} (h : r.owner? c.permission = some old) :
    r.admission id c.permission policy =
      if old = id then .ok .existing
      else match policy with
        | .reject => .error old
        | .replace => .ok (.replaces old) := by
  unfold owner? at h
  cases policy <;> simp only [admission, h]

/-- A constraint is let in if its permission is free, or may be taken from another identity. -/
theorem admits_iff : r.Admits id c policy ↔
    r.owner? c.permission ≠ some id ∧ (r.owner? c.permission = none ∨ policy = .replace) := by
  unfold Admits
  cases howner : r.owner? c.permission with
  | none => simp [admission_of_none howner]
  | some old =>
    rw [admission_of_some howner]
    by_cases hold : old = id
    · simp [hold]
    · cases policy <;> simp [hold]

/-- A constraint that is let in goes where its permission has made room. -/
theorem register_of_admits (h : r.Admits id c policy) :
    r.register id c policy = (r.vacate c.permission).insert id c := by
  rcases admits_iff.1 h with ⟨hne, hfree⟩
  cases howner : r.owner? c.permission with
  | none => simp only [register, admission_of_none howner, vacate, howner]
  | some old =>
    have hold : old ≠ id := fun heq => hne (heq ▸ howner)
    have hpolicy : policy = .replace := hfree.resolve_left (by simp [howner])
    simp only [register, admission_of_some howner, if_neg hold, hpolicy, vacate, howner]

theorem register_of_not_admits (h : ¬ r.Admits id c policy) : r.register id c policy = r := by
  unfold register
  split
  · rfl
  · rfl
  · next hnew => exact (h (Or.inl hnew)).elim
  · next hold => exact (h (Or.inr ⟨_, hold⟩)).elim

/-! ## All identities -/

/-- Nothing is left of the permission that makes room. -/
theorem Owning.vacate (h : r.Owning) (permission : PermId) :
    (r.vacate permission).Owning ∧ ∀ other d, (r.vacate permission).get? other = some d →
      r.get? other = some d ∧ d.permission ≠ permission := by
  unfold Registry.vacate
  cases howner : r.owner? permission with
  | none =>
    refine ⟨h, fun other d hd => ⟨hd, ?_⟩⟩
    rintro rfl
    have hown := h other d hd
    rw [howner] at hown
    cases hown
  | some old =>
    refine ⟨h.erase old, fun other d hd => ?_⟩
    dsimp only at hd
    rw [get?_erase, Option.ite_none_left_eq_some] at hd
    refine ⟨hd.2, ?_⟩
    rintro rfl
    have hown := h other d hd.2
    rw [howner, Option.some.injEq] at hown
    exact hd.1 hown.symm

theorem Owning.perform (h : r.Owning) (call : RegistryCall) : (r.perform call).Owning := by
  cases call with
  | register id c policy =>
    simp only [Registry.perform]
    by_cases hadmits : r.Admits id c policy
    · rw [register_of_admits hadmits]
      rcases h.vacate c.permission with ⟨hroom, hothers⟩
      exact hroom.insert fun other d hd hpermission => ((hothers other d hd).2 hpermission).elim
    · rwa [register_of_not_admits hadmits]
  | remove id => exact h.erase id

/-- Whatever the identities are, the permission of every registered constraint stands for the
identity of the constraint. -/
theorem Owning.run (h : r.Owning) (calls : List RegistryCall) : (r.run calls).Owning := by
  induction calls generalizing r with
  | nil => exact h
  | cons call calls ih => exact ih (h.perform call)

/-! ## Sound registries -/

namespace Sound

theorem owning (h : r.Sound) : r.Owning := fun id c hget => (h c.permission id).2 ⟨c, hget, rfl⟩

/-- The permission that makes room is free, and the constraints of all others stay. -/
theorem vacate (h : r.Sound) (permission : PermId) :
    (r.vacate permission).Sound ∧ (r.vacate permission).owner? permission = none ∧
      ∀ other d, r.get? other = some d → d.permission ≠ permission →
        (r.vacate permission).get? other = some d := by
  unfold Registry.vacate
  cases howner : r.owner? permission with
  | none => exact ⟨h, howner, fun _ _ hd _ => hd⟩
  | some old =>
    rcases (h permission old).1 howner with ⟨gone, hgone, rfl⟩
    refine ⟨h.erase old, ?_, fun other d hd hne => ?_⟩
    · rw [h.owner?_erase hgone, if_pos rfl]
    · have hother : other ≠ old := by
        rintro rfl
        rw [hgone, Option.some.injEq] at hd
        exact hne (congrArg Constraint.permission hd.symm)
      dsimp only
      rw [get?_erase, if_neg hother]
      exact hd

/-- An identity that is not overwritten is new where its constraint is let in. -/
theorem get?_vacate (h : r.Sound) (hadmits : r.Admits id c policy)
    (hnot : ¬ r.Overwrites (.register id c policy)) :
    (r.vacate c.permission).get? id = none := by
  rw [Option.eq_none_iff_forall_ne_some]
  intro d hd
  rcases (h.owning.vacate c.permission).2 id d hd with ⟨hthere, hne⟩
  exact hnot ⟨hadmits, d, hthere, hne⟩

/-- A registration that overwrites nothing keeps the index in agreement with the entries. -/
theorem register (h : r.Sound) (hnot : ¬ r.Overwrites (.register id c policy)) :
    (r.register id c policy).Sound := by
  by_cases hadmits : r.Admits id c policy
  · rw [register_of_admits hadmits]
    rcases h.vacate c.permission with ⟨hroom, hfree, -⟩
    exact hroom.insert (h.get?_vacate hadmits hnot) hfree
  · rwa [register_of_not_admits hadmits]

/-- A permission whose entry has been taken stands for a constraint that is not its own. -/
theorem not_sound_of_overwrites (h : r.Sound) (hover : r.Overwrites (.register id c policy)) :
    ¬ (r.register id c policy).Sound := by
  rcases hover with ⟨hadmits, d, hd, hne⟩
  rcases h.vacate c.permission with ⟨hroom, -, hothers⟩
  have howner : (r.vacate c.permission).owner? d.permission = some id :=
    hroom.owning id d (hothers id d hd hne)
  rw [register_of_admits hadmits]
  intro hsound
  have hafter := (hsound d.permission id).1 (by rw [owner?_insert, if_neg hne, howner])
  rw [get?_insert, if_pos rfl] at hafter
  rcases hafter with ⟨_, ⟨⟩, hpermission⟩
  exact hne hpermission.symm

/-- A call keeps a registry sound if and only if it overwrites nothing. -/
theorem perform_iff (h : r.Sound) (call : RegistryCall) :
    (r.perform call).Sound ↔ ¬ r.Overwrites call := by
  cases call with
  | register id c policy =>
    exact ⟨fun hsound hover => h.not_sound_of_overwrites hover hsound, h.register⟩
  | remove id => exact iff_of_true (h.erase id) not_false

/-- A call leaves the constraints of other permissions where they are if and only if it overwrites
nothing. -/
theorem keepsOthers_iff (h : r.Sound) (call : RegistryCall) :
    r.KeepsOthers call ↔ ¬ r.Overwrites call := by
  cases call with
  | register id c policy =>
    constructor
    · rintro hkeeps ⟨hadmits, d, hd, hne⟩
      have hafter := hkeeps id d hd hne
      rw [register_of_admits hadmits, get?_insert, if_pos rfl, Option.some.injEq] at hafter
      exact hne (congrArg Constraint.permission hafter.symm)
    · intro hnot other d hd hne
      by_cases hadmits : r.Admits id c policy
      · have hother : other ≠ id := by
          rintro rfl
          exact hnot ⟨hadmits, d, hd, hne⟩
        rw [register_of_admits hadmits, get?_insert, if_neg hother]
        exact (h.vacate c.permission).2.2 other d hd hne
      · rwa [register_of_not_admits hadmits]
  | remove id => exact iff_of_true trivial not_false

/-- A run keeps the index in agreement with the entries if and only if it overwrites nothing. -/
theorem consistent_iff (h : r.Sound) (calls : List RegistryCall) :
    (∀ step ∈ r.trace calls, (step.1.perform step.2).Sound ∧ step.1.KeepsOthers step.2) ↔
      ∀ step ∈ r.trace calls, ¬ step.1.Overwrites step.2 := by
  induction calls generalizing r with
  | nil => simp [trace]
  | cons call calls ih =>
    simp only [trace, List.forall_mem_cons]
    rw [h.perform_iff, h.keepsOthers_iff, and_self]
    refine and_congr_right fun hnot => ?_
    exact ih ((h.perform_iff call).2 hnot)

end Sound

/-! ## Runs -/

/-- Whatever the identities are, the permission of every registered constraint stands for the
identity of the constraint.  After every step of a run a permission stands for an identity exactly
if the constraint under that identity has the permission, and no registration makes a constraint of
another permission disappear, if and only if no constraint is ever let in under an identity that
stands for a constraint of another permission at that moment. -/
theorem consistent_run_iff (calls : List RegistryCall) :
    (({} : Registry).run calls).Owning ∧
      ((∀ step ∈ ({} : Registry).trace calls,
          (step.1.perform step.2).Sound ∧ step.1.KeepsOthers step.2) ↔
        ∀ step ∈ ({} : Registry).trace calls, ¬ step.1.Overwrites step.2) :=
  ⟨owning_empty.run calls, sound_empty.consistent_iff calls⟩

/-- A permission is taken over, and the identity that it stood for is used for another one. -/
def reusing : List RegistryCall :=
  [.register ⟨"constraint_1"⟩ (Scenario.permissionExists ⟨"p"⟩ ⟨"x"⟩) .reject,
    .register ⟨"constraint_2"⟩ (Scenario.permissionExists ⟨"p"⟩ ⟨"y"⟩) .replace,
    .register ⟨"constraint_1"⟩ (Scenario.permissionExists ⟨"q"⟩ ⟨"x"⟩) .reject,
    .remove ⟨"constraint_2"⟩]

/-- Both identities are free when they are used, so the index agrees with the entries. -/
theorem consistent_reusing :
    (∀ step ∈ ({} : Registry).trace reusing,
        (step.1.perform step.2).Sound ∧ step.1.KeepsOthers step.2) ∧
      (({} : Registry).run reusing).owner? ⟨"p"⟩ = none ∧
      (({} : Registry).run reusing).owner? ⟨"q"⟩ = some ⟨"constraint_1"⟩ := by
  refine ⟨(consistent_run_iff reusing).2.2 ?_, by decide +kernel, by decide +kernel⟩
  have hfresh : ∀ (r : Registry) (id : ConstraintId) (c : Constraint) (policy : DuplicatePolicy),
      r.get? id = none → ¬ r.Overwrites (.register id c policy) := by
    rintro r id c policy hnone ⟨-, d, hd, -⟩
    rw [hnone] at hd
    cases hd
  simp only [reusing, trace, List.forall_mem_cons]
  refine ⟨hfresh _ _ _ _ ?_, hfresh _ _ _ _ ?_, hfresh _ _ _ _ ?_, not_false, by simp⟩ <;>
    decide +kernel

/-- Two permissions are registered under one identity. -/
def colliding : List RegistryCall :=
  [.register ⟨"constraint_1"⟩ (Scenario.permissionExists ⟨"p"⟩ ⟨"x"⟩) .reject,
    .register ⟨"constraint_1"⟩ (Scenario.permissionExists ⟨"q"⟩ ⟨"x"⟩) .reject]

/-- The first permission stands for the constraint of the second one, and its own has gone. -/
theorem colliding_not_consistent :
    (({} : Registry).run (colliding.take 1)).get? ⟨"constraint_1"⟩ =
        some (Scenario.permissionExists ⟨"p"⟩ ⟨"x"⟩) ∧
      (({} : Registry).run colliding).get? ⟨"constraint_1"⟩ =
        some (Scenario.permissionExists ⟨"q"⟩ ⟨"x"⟩) ∧
      (({} : Registry).run colliding).owner? ⟨"p"⟩ = some ⟨"constraint_1"⟩ ∧
      ¬ (({} : Registry).run colliding).Sound ∧
      ∃ step ∈ ({} : Registry).trace colliding, ¬ step.1.KeepsOthers step.2 := by
  have hbefore : (({} : Registry).run (colliding.take 1)).get? ⟨"constraint_1"⟩ =
      some (Scenario.permissionExists ⟨"p"⟩ ⟨"x"⟩) := by decide +kernel
  have hafter : (({} : Registry).run colliding).get? ⟨"constraint_1"⟩ =
      some (Scenario.permissionExists ⟨"q"⟩ ⟨"x"⟩) := by decide +kernel
  have howner : (({} : Registry).run colliding).owner? ⟨"p"⟩ = some ⟨"constraint_1"⟩ := by
    decide +kernel
  refine ⟨hbefore, hafter, howner, fun hsound => ?_, _, List.mem_cons_of_mem _ List.mem_cons_self,
    fun hkeeps => ?_⟩
  · rcases (hsound _ _).1 howner with ⟨c, hc, hpermission⟩
    cases hafter.symm.trans hc
    exact absurd hpermission (by decide)
  · have hkept := hkeeps _ _ hbefore (by decide)
    exact absurd (hafter.symm.trans hkept) (by decide)

end Registry

/-! ## The engine -/

namespace Engine

theorem registry_displace {e : Engine} {spare : List NodeId} (h : e.Rooted spare)
    (old : ConstraintId) : (e.displace old).1.registry = e.registry.erase old := by
  unfold displace
  cases hp : e.productions[old]? with
  | some p =>
    change e.registry.erase p.id = _
    rw [h.identified hp]
  | none =>
    have hget := h.get?_eq_none_iff.2 hp
    simp [Registry.erase, hget]

/-- A successful registration in the engine asks for admission and does what the answer says. -/
theorem Rooted.registry_add {e : Engine} {spare : List NodeId} (h : e.Rooted spare) {c : Constraint}
    {registered : Registered} (hreply : (e.add c).2 = .ok registered) :
    (e.add c).1.registry =
      e.registry.register (ConstraintId.derive c) c e.config.duplicatePolicy := by
  have houtcome := e.add_outcome c
  rw [hreply] at houtcome
  generalize (e.add c).1 = after at houtcome ⊢
  cases houtcome with
  | unchanged howner =>
    refine (Registry.register_of_not_admits fun hadmits => ?_).symm
    exact (Registry.admits_iff.1 hadmits).1 howner
  | @installed old circuit hadmits hlowers =>
    have hregistry : e.registry.Admits (ConstraintId.derive c) c e.config.duplicatePolicy := by
      rw [Registry.admits_iff, hadmits.owner]
      exact ⟨hadmits.other, hadmits.policy⟩
    rw [Registry.register_of_admits hregistry, Registry.vacate, hadmits.owner]
    cases old with
    | none => rfl
    | some old =>
      have hroom := registry_displace (h.build hlowers) old
      exact congrArg (·.insert (ConstraintId.derive c) c) hroom

end Engine
end Mandate
