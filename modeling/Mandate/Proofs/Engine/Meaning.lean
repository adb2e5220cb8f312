import Mandate.Engine.Queries
import Mandate.Proofs.Engine.Run

/-!
# What roots stand for

After every run the root of a production is the circuit of its constraint, its value is the truth of
the constraint on all facts that are known, and no circuit is there twice.

Main results:

- Definition `Facts.ofList`: the table of a list of facts.
- Theorem `ofList_knownFacts`: the known facts are the inputs of the network.
- Theorem `value_root_iff`: incremental evaluation agrees with direct evaluation.
- Theorem `roots_unfold_and_sharing_maximal`: roots stand for constraints, and equal parts are one
  node.
-/

namespace Mandate

/-! ## Known facts -/

/-- The table of a list of facts; of two facts with the same key the later one counts. -/
def Facts.ofList : List Fact → Facts
  | [], _ => none
  | fact :: rest, key => (ofList rest key).or (if fact.key = key then some fact.value else none)

/-- A table that is listed by its keys is there again where it has been listed. -/
theorem Facts.ofList_filterMap (keys : List FactKey) (f : Facts) (key : FactKey) :
    Facts.ofList (keys.filterMap fun k => (f k).map (⟨k, ·⟩)) key =
      if key ∈ keys then f key else none := by
  induction keys with
  | nil => rfl
  | cons k rest ih =>
    cases hk : f k with
    | none =>
      rw [List.filterMap_cons_none (by rw [hk, Option.map_none]), ih]
      by_cases hkey : key = k
      · simp [hkey, hk]
      · simp [hkey]
    | some v =>
      rw [List.filterMap_cons_some (by rw [hk, Option.map_some]), ofList, ih]
      by_cases hkey : key = k
      · by_cases hmem : k ∈ rest <;> simp [hkey, hk, hmem]
      · have hne : k ≠ key := fun heq => hkey heq.symm
        simp [hkey, hne]

theorem Value.ofBool?_eq_bool_iff {x : Option Bool} {b : Bool} :
    Value.ofBool? x = .bool b ↔ x = some b := by
  cases x <;> simp [Value.ofBool?]

theorem Value.ofBool?_eq_indeterminate_iff {x : Option Bool} :
    Value.ofBool? x = .indeterminate ↔ x = none := by
  cases x <;> simp [Value.ofBool?]

namespace Engine

/-- What is known are the inputs of the network. -/
theorem ofList_knownFacts (e : Engine) : Facts.ofList e.knownFacts = e.network.input := by
  funext fact
  refine (Facts.ofList_filterMap e.network.subscriptions e.network.input fact).trans ?_
  by_cases hfact : fact ∈ e.network.subscriptions
  · rw [if_pos hfact]
  · rw [if_neg hfact]
    rw [Network.mem_subscriptions_iff] at hfact
    exact (Network.input_of_not_subscribed hfact).symm

/-! ## Incremental and direct evaluation -/

/-- After every run the root of a production has the truth of its constraint on the known facts as
its value, and is indeterminate if they do not decide the constraint. -/
theorem value_root_iff (config : RegistryConfig) (ops : List Operation) (hops : Unambiguous ops)
    {id : ConstraintId} {p : Production}
    (hp : ((initial config).run ops).productions[id]? = some p) :
    (∀ b, ((initial config).run ops).network.value p.root = .bool b ↔
        p.constraint.evaluate (Facts.ofList ((initial config).run ops).knownFacts) =
          some b) ∧
      (((initial config).run ops).network.value p.root = .indeterminate ↔
        p.constraint.evaluate (Facts.ofList ((initial config).run ops).knownFacts) =
          none) := by
  have hcoherent := (reached config ops hops).1
  rw [hcoherent.value_root hp, ofList_knownFacts]
  exact ⟨fun b => Value.ofBool?_eq_bool_iff, Value.ofBool?_eq_indeterminate_iff⟩

/-- Two permissions share a network, and the value of the first one agrees with its truth. -/
theorem value_root_twoRedelegations :
    Unambiguous twoRedelegations ∧
      ∃ p, ((initial {}).run twoRedelegations).productions[
          ConstraintId.derive (redelegation ⟨"p"⟩)]? = some p ∧
        (∀ b, ((initial {}).run twoRedelegations).network.value p.root = .bool b ↔
          p.constraint.evaluate (Facts.ofList ((initial {}).run twoRedelegations).knownFacts) =
            some b) ∧
        (((initial {}).run twoRedelegations).network.value p.root = .indeterminate ↔
          p.constraint.evaluate (Facts.ofList ((initial {}).run twoRedelegations).knownFacts) =
            none) := by
  refine ⟨unambiguous_twoRedelegations, ?_⟩
  rcases exists_production_twoRedelegations {} with ⟨p, hp⟩
  exact ⟨p, hp, value_root_iff {} twoRedelegations unambiguous_twoRedelegations hp⟩

/-! ## Circuits and sharing -/

/-- After every run the root of a production stands for the circuit of its constraint, children of
nodes are there, every node stands for one circuit, and different nodes stand for different
circuits.  Whatever happens then, a production that stays or comes back stands for the same
circuit. -/
theorem roots_unfold_and_sharing_maximal (config : RegistryConfig) (ops : List Operation)
    (hops : Unambiguous ops) :
    (∀ (id : ConstraintId) (p : Production),
        ((initial config).run ops).productions[id]? = some p →
        ∃ circuit, p.constraint.Lowers circuit ∧
          ((initial config).run ops).network.Unfolds p.root circuit) ∧
      (∀ id node c, ((initial config).run ops).network.node? id = some node →
        c ∈ node.key.children → ((initial config).run ops).network.Live c) ∧
      (∀ id, ((initial config).run ops).network.Live id →
        ∃ circuit, ((initial config).run ops).network.Unfolds id circuit ∧
          ∀ other, ((initial config).run ops).network.Unfolds id other → other = circuit) ∧
      (∀ i j c d, ((initial config).run ops).network.Unfolds i c →
        ((initial config).run ops).network.Unfolds j d → i ≠ j → c ≠ d) ∧
      (∀ (more : List Operation) (id : ConstraintId) (p q : Production) (circuit : Circuit),
        Unambiguous (ops ++ more) →
        ((initial config).run ops).productions[id]? = some p →
        ((initial config).run (ops ++ more)).productions[id]? = some q →
        ((initial config).run ops).network.Unfolds p.root circuit →
        ((initial config).run (ops ++ more)).network.Unfolds q.root circuit) := by
  rcases reached config ops hops with ⟨hcoherent, hadded⟩
  refine ⟨?_, ?_, ?_, ?_, ?_⟩
  · intro id p hp
    exact (hcoherent.faithful hp).circuit
  · intro id node c hnode hc
    exact hcoherent.owned.child_live hnode hc
  · intro id hlive
    rcases hcoherent.owned.exists_unfolds hlive with ⟨circuit, hcircuit⟩
    exact ⟨circuit, hcircuit, fun other hother => hother.unique hcircuit⟩
  · rintro i j c _ hi hj hne rfl
    exact hne (hcoherent.owned.toSound.unfolds_injective hi hj)
  · intro more id p q circuit hmore hp hq hcircuit
    rcases reached config (ops ++ more) hmore with ⟨hlater, haddedLater⟩
    have hfaithful := hcoherent.faithful hp
    have hfaithfulLater := hlater.faithful hq
    -- the identity tells which constraint it is
    have hsame : p.constraint = q.constraint := by
      refine hmore _ _ (List.mem_append_left _ (hadded id p hp)) (haddedLater id q hq) ?_
      exact hfaithful.derived.symm.trans hfaithfulLater.derived
    rcases hfaithful.circuit with ⟨c, hlowers, hunfolds⟩
    rcases hfaithfulLater.circuit with ⟨d, hlowersLater, hunfoldsLater⟩
    have hcd : c = d := by
      refine Constraint.Lowers.unique hlowers ?_
      rw [hsame]
      exact hlowersLater
    have hc : circuit = c := hcircuit.unique hunfolds
    rw [hc, hcd]
    exact hunfoldsLater

/-- Two permissions share a network, and each of them has its own circuit. -/
theorem roots_unfold_twoRedelegations :
    Unambiguous twoRedelegations ∧
      (∃ p circuit, ((initial {}).run twoRedelegations).productions[
          ConstraintId.derive (redelegation ⟨"p"⟩)]? = some p ∧
        p.constraint.Lowers circuit ∧
        ((initial {}).run twoRedelegations).network.Unfolds p.root circuit) ∧
      (∀ i j c d, ((initial {}).run twoRedelegations).network.Unfolds i c →
        ((initial {}).run twoRedelegations).network.Unfolds j d → i ≠ j → c ≠ d) := by
  have hmeaning := roots_unfold_and_sharing_maximal {} twoRedelegations unambiguous_twoRedelegations
  rcases exists_production_twoRedelegations {} with ⟨p, hp⟩
  rcases hmeaning.1 _ p hp with ⟨circuit, hlowers, hunfolds⟩
  exact ⟨unambiguous_twoRedelegations, ⟨p, circuit, hp, hlowers, hunfolds⟩, hmeaning.2.2.2.1⟩

end Engine
end Mandate
