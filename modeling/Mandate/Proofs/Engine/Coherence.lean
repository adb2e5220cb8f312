import Mandate.Engine.Basic
import Mandate.Proofs.Network.Building
import Mandate.Proofs.Network.Propagation
import Mandate.Proofs.Network.Releasing
import Mandate.Proofs.Registry

/-!
# Coherent engines

Between two operations the registry, the productions and the network of an engine agree: every
production holds one reference to a root that stands for the circuit of its constraint, nothing is
pending, and no state is out of date.  While an operation is under way the engine holds some roots
more than its productions do.

Main results:

- Definition `Coherent`: the invariant, for the roots that are held in addition.
- Theorem `Coherent.replaceNetwork`: the network may change as long as the roots stay what they are.
- Theorems `Coherent.enter`, `Coherent.unregister`: productions come and go.
- Theorem `Coherent.isSubscribed_iff`: the facts that are followed are those that registered
  constraints read.
-/

namespace Mandate

/-- The production stands for a constraint that is registered under the identity. -/
structure Production.Faithful (net : Network) (id : ConstraintId) (p : Production) : Prop where
  id_eq : p.id = id
  derived : id = ConstraintId.derive p.constraint
  facts : p.facts = p.constraint.referencedFacts
  circuit : ∃ circuit, p.constraint.Lowers circuit ∧ net.Unfolds p.root circuit

/-- A production stands for its constraint in every network in which its root stands for the same
circuits. -/
theorem Production.Faithful.of_unfolds {before after : Network} {id : ConstraintId} {p : Production}
    (h : p.Faithful before id) (hunfolds : ∀ c, before.Unfolds p.root c → after.Unfolds p.root c) :
    p.Faithful after id := by
  rcases h.circuit with ⟨circuit, hlowers, hcircuit⟩
  exact ⟨h.id_eq, h.derived, h.facts, circuit, hlowers, hunfolds circuit hcircuit⟩

/-- In a network that is settled the root of a production has the truth of its constraint on the
present inputs. -/
theorem Production.Faithful.value_root {net : Network} {held : List NodeId} {id : ConstraintId}
    {p : Production} (h : p.Faithful net id) (howned : net.Owned held) (hsettled : net.Settled) :
    net.value p.root = Value.ofBool? (p.constraint.evaluate net.input) := by
  rcases h.circuit with ⟨circuit, hlowers, hunfolds⟩
  rw [hsettled.value_of_unfolds howned.toSound hunfolds, hlowers.value_eq]

/-- The state of the production is the one that its root calls for, or it has not been evaluated. -/
def Production.Current (net : Network) (p : Production) : Prop :=
  p.state = .unknown ∨ p.state = .ofValue (net.value p.root)

namespace Engine

/-- The roots that productions hold. -/
def roots (e : Engine) : List NodeId :=
  e.productions.toList.map fun entry => entry.2.root

/-- Registry, productions and network agree, and the engine holds the roots `spare` in addition to
those of its productions. -/
structure Coherent (e : Engine) (spare : List NodeId) : Prop where
  owned : e.network.Owned (spare ++ e.roots)
  unbounded : e.network.wrapsAt = 0
  settled : e.network.Settled
  faithful : ∀ {id : ConstraintId} {p : Production}, e.productions[id]? = some p →
    p.Faithful e.network id
  current : ∀ {id : ConstraintId} {p : Production}, e.productions[id]? = some p →
    p.Current e.network
  registered : ∀ id, e.registry.get? id = e.productions[id]?.map Production.constraint
  registry : e.registry.Sound

/-- The engine before any operation. -/
def initial (config : RegistryConfig) : Engine :=
  { config }

theorem coherent_initial (config : RegistryConfig) : (initial config).Coherent [] where
  owned := Network.owned_empty
  unbounded := rfl
  settled := by
    refine ⟨by simp [initial], ?_⟩
    intro id node hnode
    simp [initial, Network.node?] at hnode
  faithful := by simp [initial]
  current := by simp [initial]
  registered := by simp [initial, Registry.get?]
  registry := Registry.sound_empty

theorem owner?_initial (config : RegistryConfig) (permission : PermId) :
    (initial config).registry.owner? permission = none := by
  simp [initial, Registry.owner?]

theorem mem_roots_iff {e : Engine} {root : NodeId} :
    root ∈ e.roots ↔
      ∃ (id : ConstraintId) (p : Production), e.productions[id]? = some p ∧ p.root = root := by
  unfold roots
  rw [List.mem_map]
  constructor
  · rintro ⟨⟨id, p⟩, hmem, rfl⟩
    exact ⟨id, p, mem_toList_iff.1 hmem, rfl⟩
  · rintro ⟨id, p, hp, rfl⟩
    exact ⟨(id, p), mem_toList_iff.2 hp, rfl⟩

/-- The entry of a new production. -/
def entered (e : Engine) (id : ConstraintId) (c : Constraint) (root : NodeId) : Production :=
  { id, constraint := c, root, facts := c.referencedFacts, generation := e.generation + 1,
    history := e.retired[id]?.getD [] }

/-- The productions after a new one has been entered. -/
theorem productions_enter (e : Engine) (id : ConstraintId) (c : Constraint) (root : NodeId)
    (other : ConstraintId) :
    (e.enter id c root).productions[other]? =
      if other = id then some (e.entered id c root) else e.productions[other]? :=
  getElem?_insert_eq _ _ _ _

namespace Coherent

variable {e : Engine} {spare : List NodeId} {id : ConstraintId} {p : Production}

/-- The permission of a production stands for its identity, and no other one does. -/
theorem owner_iff (h : e.Coherent spare) (permission : PermId) (id : ConstraintId) :
    e.registry.owner? permission = some id ↔
      ∃ p : Production, e.productions[id]? = some p ∧ p.constraint.permission = permission := by
  rw [h.registry permission id, h.registered]
  simp only [Option.map_eq_some_iff, exists_exists_and_eq_and]

/-- The root of a production has the truth of its constraint on the present inputs. -/
theorem value_root (h : e.Coherent spare) (hp : e.productions[id]? = some p) :
    e.network.value p.root = Value.ofBool? (p.constraint.evaluate e.network.input) :=
  (h.faithful hp).value_root h.owned h.settled

/-- The network may change as long as the roots stand for the same circuits and have the same
values. -/
theorem replaceNetwork {net : Network} {spare' : List NodeId} (h : e.Coherent spare)
    (howned : net.Owned (spare' ++ e.roots)) (hwraps : net.wrapsAt = e.network.wrapsAt)
    (hsettled : net.Settled)
    (hunfolds : ∀ root ∈ e.roots, ∀ c, e.network.Unfolds root c → net.Unfolds root c)
    (hvalue : ∀ root ∈ e.roots, net.value root = e.network.value root) :
    ({ e with network := net } : Engine).Coherent spare' where
  owned := howned
  unbounded := hwraps.trans h.unbounded
  settled := hsettled
  faithful := by
    intro id p hp
    have hroot : p.root ∈ e.roots := mem_roots_iff.2 ⟨id, p, hp, rfl⟩
    exact (h.faithful hp).of_unfolds (hunfolds p.root hroot)
  current := by
    intro id p hp
    have hroot : p.root ∈ e.roots := mem_roots_iff.2 ⟨id, p, hp, rfl⟩
    have hcurrent := h.current hp
    unfold Production.Current at hcurrent ⊢
    rw [hvalue p.root hroot]
    exact hcurrent
  registered := h.registered
  registry := h.registry

/-- A fact is followed if and only if a registered constraint reads it. -/
theorem isSubscribed_iff (h : e.Coherent []) (fact : FactKey) :
    e.network.isSubscribed fact = true ↔
      ∃ (id : ConstraintId) (p : Production), e.productions[id]? = some p ∧
        fact ∈ p.constraint.referencedFacts := by
  rw [h.owned.isSubscribed_iff]
  constructor
  · intro hread
    rcases hread with ⟨root, hroot, c, hc, hfact⟩
    rcases mem_roots_iff.1 hroot with ⟨id, p, hp, rfl⟩
    rcases (h.faithful hp).circuit with ⟨circuit, hlowers, hunfolds⟩
    have hsame : c = circuit := hc.unique hunfolds
    exact ⟨id, p, hp, (hlowers.mem_facts_iff fact).1 (hsame ▸ hfact)⟩
  · intro hread
    rcases hread with ⟨id, p, hp, hfact⟩
    rcases (h.faithful hp).circuit with ⟨circuit, hlowers, hunfolds⟩
    exact ⟨p.root, mem_roots_iff.2 ⟨id, p, hp, rfl⟩, circuit, hunfolds,
      (hlowers.mem_facts_iff fact).2 hfact⟩

/-! ## Productions come and go -/

/-- A production that has gone leaves its root to the engine. -/
theorem unregister (h : e.Coherent spare) (hp : e.productions[id]? = some p)
    (retired : Std.TreeMap ConstraintId (List ActivationRecord)) :
    ({ e with
        registry := e.registry.erase id
        productions := e.productions.erase id
        retired } : Engine).Coherent (p.root :: spare) := by
  have hlookup : ∀ (other : ConstraintId) (q : Production),
      (e.productions.erase id)[other]? = some q ↔
      other ≠ id ∧ e.productions[other]? = some q := by
    intro other q
    rw [getElem?_erase_eq]
    by_cases hother : other = id <;> simp [hother]
  constructor
  · refine h.owned.perm ?_
    have hroots : e.roots.Perm (p.root :: (e.productions.erase id).toList.map fun entry =>
        entry.2.root) := (toList_perm_erase hp).map _
    exact (hroots.append_left spare).trans List.perm_middle
  · exact h.unbounded
  · exact h.settled
  · intro other q hq
    exact h.faithful ((hlookup other q).1 hq).2
  · intro other q hq
    exact h.current ((hlookup other q).1 hq).2
  · intro other
    dsimp only
    rw [Registry.get?_erase, getElem?_erase_eq]
    by_cases hother : other = id
    · rw [if_pos hother, if_pos hother, Option.map_none]
    · rw [if_neg hother, if_neg hother]
      exact h.registered other
  · exact h.registry.erase id

/-- A new production takes a root that the engine holds. -/
theorem enter {c : Constraint} {root : NodeId} {circuit : Circuit}
    (h : e.Coherent (root :: spare)) (hid : id = ConstraintId.derive c)
    (hnew : e.productions[id]? = none) (hfree : e.registry.owner? c.permission = none)
    (hlowers : c.Lowers circuit) (hunfolds : e.network.Unfolds root circuit) :
    (e.enter id c root).Coherent spare := by
  have hlookup : ∀ (other : ConstraintId) (q : Production),
      (e.enter id c root).productions[other]? = some q ↔
      (other = id ∧ q = e.entered id c root) ∨
        (other ≠ id ∧ e.productions[other]? = some q) := by
    intro other q
    rw [productions_enter]
    by_cases hother : other = id
    · simp [hother, eq_comm]
    · simp [hother]
  constructor
  · refine h.owned.perm ?_
    have hroots : (e.enter id c root).roots.Perm (root :: e.roots) :=
      (toList_insert_perm (e.entered id c root) hnew).map _
    exact List.perm_middle.symm.trans (hroots.symm.append_left spare)
  · exact h.unbounded
  · exact h.settled
  · intro other q hq
    rcases (hlookup other q).1 hq with ⟨rfl, rfl⟩ | ⟨-, hold⟩
    · exact ⟨rfl, hid, rfl, circuit, hlowers, hunfolds⟩
    · exact h.faithful hold
  · intro other q hq
    rcases (hlookup other q).1 hq with ⟨rfl, rfl⟩ | ⟨-, hold⟩
    · exact Or.inl rfl
    · exact h.current hold
  · intro other
    have hregistry : (e.enter id c root).registry = e.registry.insert id c := rfl
    rw [hregistry, productions_enter, Registry.get?_insert]
    by_cases hother : other = id
    · rw [if_pos hother, if_pos hother]
      rfl
    · rw [if_neg hother, if_neg hother]
      exact h.registered other
  · refine h.registry.insert ?_ hfree
    rw [h.registered, hnew, Option.map_none]

end Coherent
end Engine
end Mandate
