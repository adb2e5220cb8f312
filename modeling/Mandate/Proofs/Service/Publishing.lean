import Mandate.Proofs.Engine.Snapshots
import Mandate.Proofs.Service.Outcomes

/-!
# Published snapshots

Whenever no call is at work, queries are answered as the engine would answer them: every passage that
changes the engine publishes its snapshot, and one that does not has nothing to publish.

Main results:

- Definition `Traffic.Distinct`: no two constraints that calls have asked to register have the same
  identity.
- Theorem `Traffic.coherent_of_distinct`: the engine is coherent then.
- Theorem `Traffic.snapshots_answer`: what is published is the snapshot of the engine, and gives its
  answers.
-/

namespace Mandate
namespace Traffic

/-- No two constraints that calls have asked to register have the same identity. -/
def Distinct (w : Traffic) (limits : Limits) : Prop :=
  ∀ c d, w.Asked limits c → w.Asked limits d → ConstraintId.derive c = ConstraintId.derive d → c = d

variable {config : EngineConfig} {w : Traffic}

/-- In the beginning the snapshot is empty, as is the engine. -/
theorem snapshot_start (config : EngineConfig) :
    (Service.ofConfig config).snapshot = (Service.ofConfig config).engine.snapshot :=
  rfl

/-- The engine has performed a run whose constraints are told apart by their identities. -/
theorem coherent_of_distinct (h : (start config).Reaches w) (hdistinct : w.Distinct config.limits) :
    w.service.engine.Coherent [] := by
  rcases exists_performs h with ⟨ops, hperforms, hasked⟩
  have hops : Unambiguous ops := fun c d hc hd => hdistinct c d (hasked c hc) (hasked d hd)
  rw [hperforms.engine]
  exact (Engine.reached config.registry ops hops).1

/-- Whatever has happened, what is published is the snapshot of the engine.  If identities tell the
constraints apart, it gives the answers of the engine to all queries, and the report on the service
tells the numbers of the engine.  This also holds of a snapshot after every run of the engine. -/
theorem snapshots_answer (h : (start config).Reaches w) :
    w.service.snapshot = w.service.engine.snapshot ∧
      (w.Distinct config.limits → w.service.snapshot.Answers w.service.engine ∧
        w.service.health = .object [("status", .text "ok"),
          ("constraints", .ofNat w.service.engine.list.length),
          ("nodes", .ofNat w.service.engine.network.size)]) ∧
      ∀ ops, Unambiguous ops → ((Engine.initial config.registry).run ops).snapshot.Answers
        ((Engine.initial config.registry).run ops) := by
  have hsame : w.service.snapshot = w.service.engine.snapshot := by
    rcases exists_performs h with ⟨ops, hperforms, -⟩
    exact hperforms.snapshot (snapshot_start config)
  refine ⟨hsame, fun hdistinct => ?_, fun ops hops => Engine.answers_of_run config.registry hops⟩
  have hanswers : w.service.snapshot.Answers w.service.engine :=
    hsame ▸ (coherent_of_distinct h hdistinct).answers
  refine ⟨hanswers, ?_⟩
  rw [Service.health, hanswers.size, hanswers.nodes]

/-! ## A snapshot while a permission is contested -/

open Engine (redelegation reversed)

theorem asked_contested {limits : Limits} {c : Constraint} (h : contested.Asked limits c) :
    limits.accept (redelegation ⟨"p"⟩) = .ok c ∨ limits.accept reversed = .ok c := by
  rcases h with ⟨id, story, hid, hchecked⟩
  rw [contested, ask, calls_record] at hid
  split at hid
  · cases hid
    exact Or.inr (Option.some.inj hchecked)
  · rw [added, ask, calls_record] at hid
    split at hid
    · cases hid
      exact Or.inl (Option.some.inj hchecked)
    · cases hid

theorem distinct_contested (limits : Limits) : contested.Distinct limits := by
  have hcases : ∀ c, contested.Asked limits c → c = redelegation ⟨"p"⟩ ∨ c = reversed :=
    fun c hc => (asked_contested hc).imp (fun h => (Limits.accept_eq_ok_iff.1 h).1)
      fun h => (Limits.accept_eq_ok_iff.1 h).1
  intro c d hc hd hsame
  rcases hcases c hc with rfl | rfl <;> rcases hcases d hd with rfl | rfl
  · rfl
  · exact (Engine.derive_redelegation_ne_reversed hsame).elim
  · exact (Engine.derive_redelegation_ne_reversed hsame.symm).elim
  · rfl

theorem reaches_contested : (start {}).Reaches contested :=
  reaches_added.tail (.begin rfl _)

/-- While another constraint is refused for a permission, the snapshot goes on to tell which one the
permission has, and so it does after a run in which that one has been removed and has come back. -/
theorem snapshots_answer_contested :
    (start {}).Reaches contested ∧ contested.Distinct ({} : EngineConfig).limits ∧
      contested.service.snapshot.owner? ⟨"p"⟩ =
        some (ConstraintId.derive (redelegation ⟨"p"⟩)) ∧
      contested.service.snapshot.get (ConstraintId.derive reversed) =
        .error (.notFound (ConstraintId.derive reversed)) ∧
      Unambiguous World.readded ∧
      ((Engine.initial {}).run World.readded).snapshot.list =
        ((Engine.initial {}).run World.readded).list := by
  rcases snapshots_answer reaches_contested with ⟨-, hanswers, hruns⟩
  rcases hanswers (distinct_contested _) with ⟨hcontested, -⟩
  have hengine : contested.service.engine =
      ((Engine.initial {}).add (redelegation ⟨"p"⟩)).1 := by
    rw [engine_contested, engine_added, (World.run_readded _).1]
  refine ⟨reaches_contested, distinct_contested _, ?_, ?_, World.unambiguous_readded,
    (hruns _ World.unambiguous_readded).list⟩
  · rw [hcontested.owner?, hengine, Engine.owner?,
      Engine.owner?_add_of_free World.free_initial (Engine.redelegation_lowers _)]
    exact if_pos rfl
  · have hnone : (Engine.initial {}).registry.get? (ConstraintId.derive reversed) = none := by
      simp [Engine.initial, Registry.get?]
    rw [hcontested.get, hengine, Engine.get,
      Engine.add_of_free World.free_initial (Engine.redelegation_lowers _)]
    have hget := Registry.get?_insert (Engine.initial {}).registry
      (ConstraintId.derive (redelegation ⟨"p"⟩)) (redelegation ⟨"p"⟩) (ConstraintId.derive reversed)
    rw [if_neg Engine.derive_redelegation_ne_reversed.symm, hnone] at hget
    exact congrArg (orNotFound _) hget

end Traffic
end Mandate
