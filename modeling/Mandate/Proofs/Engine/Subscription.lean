import Mandate.Proofs.Engine.Run

/-!
# Followed facts

The facts that the network follows are those that registered constraints read, and what an operation
reports about them is what it changes.

Main results:

- Definition `Engine.reported`: what an operation reports about the facts that are followed.
- Theorem `reported_follows`: what is reported is what changes.
- Theorem `subscriptions_of_run`: the facts that are followed and fetched after every run.
-/

namespace Mandate

theorem FactKey.sorted_pairwise (keys : List FactKey) :
    (FactKey.sorted keys).Pairwise fun a b => compare a b = .lt :=
  Std.TreeSet.ordered_toList

namespace Engine

/-- The facts that a successful registration or removal reports as new and as dropped. -/
def reported (e : Engine) : Operation → Option (List FactKey × List FactKey)
  | .add c =>
    match (e.add c).2 with
    | .ok registered => some (registered.newFacts, registered.droppedFacts)
    | .error _ => none
  | .remove id =>
    match (e.remove id).2 with
    | .ok removed => some ([], removed.droppedFacts)
    | .error _ => none
  | _ => none

/-- What an operation reports is what it changes. -/
theorem reported_follows {e : Engine} {op : Operation} {new dropped : List FactKey}
    (h : e.Coherent []) (hop : ∀ c, op = .add c → e.Distinguishes c)
    (hreported : e.reported op = some (new, dropped)) :
    e.network.Follows (e.perform op).network new dropped := by
  cases op with
  | add c =>
    have hadds := h.adds (hop c rfl)
    cases hreply : (e.add c).2 with
    | error reason => simp [reported, hreply] at hreported
    | ok registered =>
      simp only [reported, hreply, Option.some.injEq, Prod.mk.injEq] at hreported
      rw [hreply] at hadds
      rcases hreported with ⟨rfl, rfl⟩
      exact hadds.follows
  | remove id =>
    cases hreply : (e.remove id).2 with
    | error reason => simp [reported, hreply] at hreported
    | ok removed =>
      simp only [reported, hreply, Option.some.injEq, Prod.mk.injEq] at hreported
      rcases hreported with ⟨rfl, rfl⟩
      exact h.follows_remove hreply
  | applyFacts news now => cases hreported
  | applyPull plan news now => cases hreported

/-- The registered constraints of a coherent engine. -/
theorem Coherent.mem_registry_iff {e : Engine} {spare : List NodeId} (h : e.Coherent spare)
    {id : ConstraintId} {c : Constraint} :
    (id, c) ∈ e.registry.toList ↔
      ∃ p : Production, e.productions[id]? = some p ∧ p.constraint = c := by
  have hget : e.registry.constraints[id]? = e.registry.get? id := rfl
  unfold Registry.toList
  rw [mem_toList_iff]
  dsimp only
  rw [hget, h.registered, Option.map_eq_some_iff]

/-- After every run the facts that are followed are those that registered constraints read, each
once and in the order of keys, and a pull fetches those that its constraint reads.  What a step of
the run reports as new and as dropped is what has come and gone, each once. -/
theorem subscriptions_of_run (config : RegistryConfig) (ops : List Operation)
    (hops : Unambiguous ops) :
    ((initial config).run ops).network.subscriptions.Pairwise (fun a b => compare a b = .lt) ∧
      (∀ fact, fact ∈ ((initial config).run ops).network.subscriptions ↔
        ∃ entry ∈ ((initial config).run ops).registry.toList,
          fact ∈ entry.2.referencedFacts) ∧
      (∀ id c, (id, c) ∈ ((initial config).run ops).registry.toList →
        c.referencedFacts.Pairwise (fun a b => compare a b = .lt) ∧
          ∃ plan, ((initial config).run ops).pullPlan id = .ok plan ∧
            plan.keys = c.referencedFacts) ∧
      (∀ step ∈ (initial config).trace ops, ∀ new dropped,
        step.1.reported step.2 = some (new, dropped) →
        new.Nodup ∧ dropped.Nodup ∧ new.Disjoint dropped ∧
          (∀ fact, fact ∈ new ↔ fact ∈ (step.1.perform step.2).network.subscriptions ∧
            fact ∉ step.1.network.subscriptions) ∧
          (∀ fact, fact ∈ dropped ↔ fact ∈ step.1.network.subscriptions ∧
            fact ∉ (step.1.perform step.2).network.subscriptions)) := by
  have hcoherent := (reached config ops hops).1
  refine ⟨Std.TreeMap.ordered_keys, ?_, ?_, ?_⟩
  · intro fact
    rw [Network.mem_subscriptions_iff, hcoherent.isSubscribed_iff]
    constructor
    · intro hread
      rcases hread with ⟨id, p, hp, hfact⟩
      exact ⟨(id, p.constraint), hcoherent.mem_registry_iff.2 ⟨p, hp, rfl⟩, hfact⟩
    · intro hread
      rcases hread with ⟨⟨id, c⟩, hentry, hfact⟩
      rcases hcoherent.mem_registry_iff.1 hentry with ⟨p, hp, rfl⟩
      exact ⟨id, p, hp, hfact⟩
  · intro id c hentry
    rcases hcoherent.mem_registry_iff.1 hentry with ⟨p, hp, rfl⟩
    refine ⟨FactKey.sorted_pairwise _, ?_⟩
    simp only [pullPlan, hp, Except.ok.injEq, exists_eq_left']
    exact (hcoherent.faithful hp).facts
  · intro step hstep new dropped hreported
    rcases reached_of_mem_trace hops hstep with ⟨hbefore, hop⟩
    have hfollows := reported_follows hbefore hop hreported
    simp only [Network.mem_subscriptions_iff]
    refine ⟨hfollows.new_nodup, hfollows.dropped_nodup, ?_, hfollows.mem_new_iff,
      hfollows.mem_dropped_iff⟩
    intro fact hnew hdropped
    exact ((hfollows.mem_new_iff fact).1 hnew).2 ((hfollows.mem_dropped_iff fact).1 hdropped).1

/-- Two permissions share a network; what is followed is what their constraints read, and the first
registration reports what it changes. -/
theorem subscriptions_twoRedelegations :
    Unambiguous twoRedelegations ∧
      (∀ fact, fact ∈ ((initial {}).run twoRedelegations).network.subscriptions ↔
        ∃ entry ∈ ((initial {}).run twoRedelegations).registry.toList,
          fact ∈ entry.2.referencedFacts) ∧
      ∃ step ∈ (initial {}).trace twoRedelegations, ∃ new,
        step.1.reported step.2 = some (new, []) ∧ new.Nodup ∧
          ∀ fact, fact ∈ new ↔ fact ∈ (step.1.perform step.2).network.subscriptions ∧
            fact ∉ step.1.network.subscriptions := by
  have hrun := subscriptions_of_run {} twoRedelegations unambiguous_twoRedelegations
  have hstep : (initial {}, Operation.add (redelegation ⟨"p"⟩)) ∈
      (initial {}).trace twoRedelegations := List.mem_cons_self
  have hfree : (initial {}).registry.owner? (redelegation ⟨"p"⟩).permission = none := by
    simp [initial, Registry.owner?]
  have hreported : (initial {}).reported (.add (redelegation ⟨"p"⟩)) =
      some (((initial {}).network.build (.fact (.redelegated ⟨"p"⟩))).newFacts, []) := by
    simp only [reported, add_of_free hfree (redelegation_lowers _)]
  rcases hrun.2.2.2 _ hstep _ _ hreported with ⟨hnodup, -, -, hnew, -⟩
  exact ⟨unambiguous_twoRedelegations, hrun.2.1, _, hstep, _, hreported, hnodup, hnew⟩

end Engine
end Mandate
