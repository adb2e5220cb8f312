import Mandate.Proofs.Engine.Rooted

/-!
# Failures

An operation that fails leaves the engine as it is, with all nodes, references and inputs of the
network, all productions and histories, and both counters.  So does a registration that finds its
constraint registered.

Main results:

- Theorem `failures_leave_engine`: when registrations and removals fail after a run, and that
  nothing changes then.
- Theorem `failures_oversized`: a constraint that has no circuit does not displace the one that it
  was to replace.
-/

namespace Mandate
namespace Engine

/-- What is registered is what its permission stands for. -/
theorem Rooted.owner_of_get? {e : Engine} {spare : List NodeId} {c : Constraint}
    (h : e.Rooted spare) (hget : e.registry.get? (ConstraintId.derive c) = some c) :
    e.registry.owner? c.permission = some (ConstraintId.derive c) :=
  h.owning _ _ hget

/-- After every run, a registration fails if and only if the constraint is refused, because its
permission has another constraint that may not be replaced, or because it does not pass the check of
the compiler; and then the engine stays as it is.  It also stays as it is when an identity is to be
removed that is not registered, and when a constraint is registered that is registered already. -/
theorem failures_leave_engine (config : RegistryConfig) (ops : List Operation) (c : Constraint)
    (id : ConstraintId) :
    let e := (initial config).run ops
    (∀ reason, (e.add c).2 = .error reason ↔ e.Refuses c reason) ∧
      (∀ reason, (e.add c).2 = .error reason → (e.add c).1 = e) ∧
      (e.registry.get? id = none → e.remove id = (e, .error (.notFound id))) ∧
      (e.registry.get? (ConstraintId.derive c) = some c →
        e.add c = (e, .ok ⟨ConstraintId.derive c, .unchanged, [], []⟩)) := by
  intro e
  rcases rooted_run config ops with ⟨spare, hrooted⟩
  refine ⟨e.add_error_iff c, fun reason => add_of_error, ?_, ?_⟩
  · intro hunknown
    exact remove_of_none (hrooted.get?_eq_none_iff.1 hunknown)
  · intro hthere
    exact add_of_owner (hrooted.owner_of_get? hthere)

/-- The constraint that the block number is greater than the first number that does not fit the
evaluation range. -/
def oversized : Constraint :=
  ⟨⟨"p"⟩, .compare .lt (.literal ⟨rangeEnd, by decide⟩) .blockNumber⟩

theorem oversized_check :
    oversized.check = .error (.literalOutOfRange ⟨rangeEnd, by decide⟩) := by
  decide

/-- The permission of the two constraints is the same, but not their identity. -/
theorem derive_redelegation_ne_oversized :
    ConstraintId.derive (redelegation ⟨"p"⟩) ≠ ConstraintId.derive oversized := by
  decide +kernel

/-- The registry after the first registration. -/
theorem registry_run_redelegation (config : RegistryConfig) :
    ((initial config).run [.add (redelegation ⟨"p"⟩)]).registry =
      ({} : Registry).insert (ConstraintId.derive (redelegation ⟨"p"⟩)) (redelegation ⟨"p"⟩) := by
  have hfree : (initial config).registry.owner? (redelegation ⟨"p"⟩).permission = none := by
    simp [initial, Registry.owner?]
  simp only [run, perform, List.foldl_cons, List.foldl_nil]
  rw [add_of_free hfree (redelegation_lowers _)]
  rfl

/-- Whether a constraint may be replaced or not, one that cannot be compiled does not take its
place; and a constraint is not registered twice. -/
theorem failures_oversized :
    let e := (initial { duplicatePolicy := .replace }).run [.add (redelegation ⟨"p"⟩)]
    let strict := (initial { duplicatePolicy := .reject }).run [.add (redelegation ⟨"p"⟩)]
    let id := ConstraintId.derive (redelegation ⟨"p"⟩)
    ((e.add oversized).1 = e ∧ (e.add oversized).2 = .error (.notCompiled
        (ConstraintId.derive oversized) (.literalOutOfRange ⟨rangeEnd, by decide⟩))) ∧
      ((strict.add oversized).1 = strict ∧
        (strict.add oversized).2 = .error (.duplicate ⟨"p"⟩ id)) ∧
      e.remove (ConstraintId.derive oversized) =
        (e, .error (.notFound (ConstraintId.derive oversized))) ∧
      e.add (redelegation ⟨"p"⟩) = (e, .ok ⟨id, .unchanged, [], []⟩) := by
  intro e strict id
  have howner : ∀ config, ((initial config).run [.add (redelegation ⟨"p"⟩)]).registry.owner?
      oversized.permission = some id := by
    intro config
    rw [registry_run_redelegation, Registry.owner?_insert]
    exact if_pos rfl
  have hpolicy : e.config.duplicatePolicy = .replace := by rw [config_run]
  have hstrict : strict.config.duplicatePolicy = .reject := by rw [config_run]
  have hne : id ≠ ConstraintId.derive oversized := derive_redelegation_ne_oversized
  have hthere : e.registry.get? id = some (redelegation ⟨"p"⟩) := by
    rw [registry_run_redelegation, Registry.get?_insert]
    exact if_pos rfl
  have hunknown : e.registry.get? (ConstraintId.derive oversized) = none := by
    rw [registry_run_redelegation, Registry.get?_insert, if_neg hne.symm]
    simp [Registry.get?]
  have hadmits : e.Admits oversized (some id) :=
    ⟨howner _, by simpa using hne, Or.inr hpolicy⟩
  have hreplacing := failures_leave_engine { duplicatePolicy := .replace }
    [.add (redelegation ⟨"p"⟩)] oversized (ConstraintId.derive oversized)
  have hrejecting := failures_leave_engine { duplicatePolicy := .reject }
    [.add (redelegation ⟨"p"⟩)] oversized id
  have hagain := failures_leave_engine { duplicatePolicy := .replace }
    [.add (redelegation ⟨"p"⟩)] (redelegation ⟨"p"⟩) id
  have hcompile := (hreplacing.1 _).2 (.notCompiled hadmits oversized_check)
  have hduplicate := (hrejecting.1 _).2 (.duplicate (howner _) hne hstrict)
  exact ⟨⟨hreplacing.2.1 _ hcompile, hcompile⟩, ⟨hrejecting.2.1 _ hduplicate, hduplicate⟩,
    hreplacing.2.2.1 hunknown, hagain.2.2.2 hthere⟩

end Engine
end Mandate
