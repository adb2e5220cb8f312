import Mandate.Proofs.Engine.Run

/-!
# States are up to date

Only productions that are due are settled.  Still no state is ever out of date, and a production
waits for its first evaluation exactly as long as nothing that it reads has changed and no pull has
been applied.

Main results:

- Definition `sinceRegistration`: the steps since an identity was last registered.
- Theorem `unknown_iff_of_run`: what a production waits for.
- Theorem `state_of_run`: the state of a production after every run.
-/

namespace Mandate
namespace Engine

/-- The steps after the last one that registers the identity. -/
def sinceRegistration (id : ConstraintId) (steps : List (Engine × Operation)) :
    List (Engine × Operation) :=
  steps.rtakeWhile fun step => !step.1.registers step.2 id

theorem sinceRegistration_of_registers {id : ConstraintId} {steps : List (Engine × Operation)}
    {step : Engine × Operation} (h : step.1.registers step.2 id = true) :
    sinceRegistration id (steps ++ [step]) = [] :=
  List.rtakeWhile_concat_neg _ _ _ (by simp [h])

theorem sinceRegistration_of_not_registers {id : ConstraintId}
    {steps : List (Engine × Operation)} {step : Engine × Operation}
    (h : step.1.registers step.2 id = false) :
    sinceRegistration id (steps ++ [step]) = sinceRegistration id steps ++ [step] :=
  List.rtakeWhile_concat_pos _ _ _ (by simp [h])

/-- A production has been registered at some time, and waits for its first evaluation as long as no
step since then evaluates it. -/
theorem unknown_iff_of_run (config : RegistryConfig) (ops : List Operation)
    (hops : Unambiguous ops) {id : ConstraintId} {p : Production}
    (hp : ((initial config).run ops).productions[id]? = some p) :
    (∃ step ∈ (initial config).trace ops, step.1.registers step.2 id = true) ∧
      (p.state = .unknown ↔ ∀ step ∈ sinceRegistration id ((initial config).trace ops),
        ¬ step.1.Evaluates step.2 id p.constraint.referencedFacts) := by
  induction ops using List.reverseRecOn generalizing p with
  | nil => simp [run, initial] at hp
  | append_singleton ops op ih =>
    rw [trace_concat]
    rw [run_concat] at hp
    have hstep : ((initial config).run ops, op) ∈ (initial config).trace (ops ++ [op]) := by
      rw [trace_concat]
      exact List.mem_append_right _ (List.mem_singleton_self _)
    rcases reached_of_mem_trace hops hstep with ⟨hcoherent, hop⟩
    cases hcoherent.steps hop hp with
    | registered hregisters hadd hunknown =>
      refine ⟨⟨_, List.mem_append_right _ (List.mem_singleton_self _), hregisters⟩, ?_⟩
      rw [sinceRegistration_of_registers hregisters]
      simp [hunknown]
    | @kept old hregisters hold hconstraint hunknown =>
      rcases ih hops.of_append hold with ⟨⟨step, hmem, hthere⟩, hwaits⟩
      refine ⟨⟨step, List.mem_append_left _ hmem, hthere⟩, ?_⟩
      rw [sinceRegistration_of_not_registers hregisters, hunknown, hwaits, hconstraint]
      constructor
      · rintro ⟨hearlier, hlast⟩ step hstep
        rcases List.mem_append.1 hstep with hstep | hstep
        · exact hearlier step hstep
        · rw [List.mem_singleton.1 hstep]
          exact hlast
      · intro hall
        refine ⟨fun step hstep => hall step (List.mem_append_left _ hstep), ?_⟩
        exact hall _ (List.mem_append_right _ (List.mem_singleton_self _))

/-- After every run the state of a production is the one that the value of its root calls for, or it
is unknown; and it is unknown exactly if since the last registration no pull of the production has
been applied and no input of a fact that it reads has changed. -/
theorem state_of_run (config : RegistryConfig) (ops : List Operation) (hops : Unambiguous ops)
    {id : ConstraintId} {p : Production}
    (hp : ((initial config).run ops).productions[id]? = some p) :
    (p.state = .unknown ∨
        p.state = .ofValue (((initial config).run ops).network.value p.root)) ∧
      (∃ step ∈ (initial config).trace ops, step.1.registers step.2 id = true) ∧
      (p.state = .unknown ↔ ∀ step ∈ sinceRegistration id ((initial config).trace ops),
        ¬ step.1.AppliesPull step.2 id ∧ ∀ fact ∈ p.constraint.referencedFacts,
          ¬ InputChanges step.1.network (step.1.supplied step.2) fact) := by
  rcases unknown_iff_of_run config ops hops hp with ⟨hregistered, hunknown⟩
  refine ⟨(reached config ops hops).1.current hp, hregistered, ?_⟩
  rw [hunknown]
  simp only [Evaluates, not_or, not_exists, not_and]

/-- Two permissions share a network, and the state of the first one is up to date. -/
theorem state_twoRedelegations :
    Unambiguous twoRedelegations ∧
      ∃ p, ((initial {}).run twoRedelegations).productions[
          ConstraintId.derive (redelegation ⟨"p"⟩)]? = some p ∧
        (p.state = .unknown ∨
          p.state = .ofValue (((initial {}).run twoRedelegations).network.value p.root)) ∧
        (∃ step ∈ (initial {}).trace twoRedelegations,
          step.1.registers step.2 (ConstraintId.derive (redelegation ⟨"p"⟩)) = true) ∧
        (p.state = .unknown ↔
          ∀ step ∈ sinceRegistration (ConstraintId.derive (redelegation ⟨"p"⟩))
            ((initial {}).trace twoRedelegations),
          ¬ step.1.AppliesPull step.2 (ConstraintId.derive (redelegation ⟨"p"⟩)) ∧
            ∀ fact ∈ p.constraint.referencedFacts,
              ¬ InputChanges step.1.network (step.1.supplied step.2) fact) := by
  refine ⟨unambiguous_twoRedelegations, ?_⟩
  rcases exists_production_twoRedelegations {} with ⟨p, hp⟩
  exact ⟨p, hp, state_of_run {} twoRedelegations unambiguous_twoRedelegations hp⟩

end Engine
end Mandate
