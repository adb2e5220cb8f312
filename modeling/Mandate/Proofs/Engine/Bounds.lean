import Mandate.Proofs.Engine.Run
import Mandate.Proofs.Network.Sizes
import Mandate.Proofs.Network.Walking
import Mandate.Proofs.Validation.Admission

/-!
# Limits bound the network

Limits speak of formulas, and the network holds circuits that share their nodes.  What is registered
within limits bounds the network all the same: every node is below the root of a production, and the
tree below a root is no larger and no higher than the formula.

Main results:

- Theorem `size_add_le`: how much a registration may add, whatever has happened before.
- Theorem `Coherent.length_nodes_le`: the trees of the productions cover the network.
- Definition `Bounded`: the bounds that limits set.
- Theorem `bounded_of_run`: they hold after every run that leaves only admissible constraints.
-/

namespace Mandate
namespace Engine

/-! ## Registrations -/

theorem size_withdraw_le (e : Engine) (p : Production) :
    (e.withdraw p).1.network.size ≤ e.network.size :=
  e.network.size_release_le p.root

theorem size_displace_le (e : Engine) (id : ConstraintId) :
    (e.displace id).1.network.size ≤ e.network.size := by
  unfold displace
  split
  · exact e.size_withdraw_le _
  · exact Nat.le_refl _

theorem size_install_le (e : Engine) (id : ConstraintId) (c : Constraint)
    (old : Option ConstraintId) :
    (e.install id c old).1.network.size ≤ e.network.size + c.body.nodeCount := by
  unfold install
  cases hcompile : e.network.compile c with
  | error reason => exact Nat.le_add_right _ _
  | ok built =>
    rcases (e.network.compile_eq_ok_iff c built).1 hcompile with ⟨circuit, hlowers, rfl⟩
    have hbuild := e.network.size_build_le circuit
    have hcircuit : circuit.size ≤ c.body.nodeCount := Formula.Lowers.size_le hlowers
    cases old with
    | none =>
      simp only [enter]
      omega
    | some old =>
      have hdisplace : (({ e with network := (e.network.build circuit).network } : Engine).displace
          old).1.network.size ≤ (e.network.build circuit).network.size := size_displace_le _ old
      simp only [enter]
      omega

/-- A registration adds at most as many nodes as the body has. -/
theorem size_add_le (e : Engine) (c : Constraint) :
    (e.add c).1.network.size ≤ e.network.size + c.body.nodeCount := by
  unfold add
  dsimp only
  split
  · exact Nat.le_add_right _ _
  · exact Nat.le_add_right _ _
  · exact e.size_install_le _ c _
  · exact e.size_install_le _ c _

/-! ## Productions -/

/-- The places in the trees of all productions, one for every visit. -/
def treePlaces (e : Engine) : List NodeId :=
  e.productions.toList.flatMap fun entry => (e.visits entry.2).map Network.Visit.id

/-- As many constraints are registered as there are productions. -/
theorem Coherent.size_registry {e : Engine} {spare : List NodeId} (h : e.Coherent spare) :
    e.registry.size = e.productions.size := by
  have hperm : e.registry.constraints.toList.Perm
      (e.productions.map fun _ p => p.constraint).toList := by
    refine toList_perm_of_getElem?_eq fun id => ?_
    rw [Std.TreeMap.getElem?_map]
    exact h.registered id
  have hlength := hperm.length_eq
  rwa [Std.TreeMap.length_toList, Std.TreeMap.length_toList, Std.TreeMap.size_map] at hlength

namespace Coherent

variable {e : Engine} {spare : List NodeId} {id : ConstraintId} {p : Production}

/-- The root of a production is there, as high as the circuit it stands for, and lower than the
body. -/
theorem exists_root (h : e.Coherent spare) (hp : e.productions[id]? = some p) :
    ∃ circuit root, e.network.Unfolds p.root circuit ∧ e.network.node? p.root = some root ∧
      root.height = circuit.height ∧ circuit.height < p.constraint.body.depth ∧
      circuit.size ≤ p.constraint.body.nodeCount := by
  rcases (h.faithful hp).circuit with ⟨circuit, hlowers, hunfolds⟩
  have hmem : p.root ∈ e.roots := mem_roots_iff.2 ⟨id, p, hp, rfl⟩
  rcases h.owned.held_live (List.mem_append_right spare hmem) with ⟨root, hroot⟩
  exact ⟨circuit, root, hunfolds, hroot, h.owned.height_of_unfolds hunfolds hroot,
    Formula.Lowers.height_lt hlowers, Formula.Lowers.size_le hlowers⟩

theorem admits {limits : Limits} (h : e.Coherent spare)
    (hadmitted : ∀ id c, e.registry.get? id = some c → limits.check c = none)
    (hp : e.productions[id]? = some p) : limits.Admits p.constraint :=
  Limits.admits_of_check (hadmitted id p.constraint (by rw [h.registered, hp]; rfl))

/-- The tree of a production is no larger than the body. -/
theorem length_visits_le (h : e.Coherent spare) (hp : e.productions[id]? = some p) :
    (e.visits p).length ≤ p.constraint.body.nodeCount := by
  rcases h.exists_root hp with ⟨circuit, root, hunfolds, hroot, hheight, -, hsize⟩
  have hlt := h.owned.height_lt_size hroot
  have hlength : (e.visits p).length = circuit.size := h.owned.length_walk hunfolds (by omega) 1
  exact hlength.trans_le hsize

/-- No place in the tree of a production is without a node. -/
theorem node_of_mem_visits (h : e.Coherent spare) (hp : e.productions[id]? = some p)
    {v : Network.Visit} (hv : v ∈ e.visits p) :
    ∃ node, v.node = some node ∧ e.network.node? v.id = some node := by
  rcases h.exists_root hp with ⟨_, _, -, hroot, -⟩
  exact h.owned.node_of_mem_walk hroot (Nat.le_of_lt (h.owned.height_lt_size hroot)) hv

/-- Every node is in the tree of a production whose body is higher than it. -/
theorem exists_mem_visits (h : e.Coherent []) {place : NodeId} {node : Node}
    (hnode : e.network.node? place = some node) :
    ∃ (id : ConstraintId) (p : Production), e.productions[id]? = some p ∧
      node.height < p.constraint.body.depth ∧ ∃ v ∈ e.visits p, v.id = place := by
  rcases h.owned.exists_root ⟨node, hnode⟩ with ⟨held, hheld, hreach⟩
  rcases mem_roots_iff.1 hheld with ⟨id, p, hp, rfl⟩
  rcases h.exists_root hp with ⟨_, root, -, hroot, hheight, hdepth, -⟩
  have hle := h.owned.height_le_of_reaches hreach hroot hnode
  exact ⟨id, p, hp, by omega,
    h.owned.exists_mem_walk hreach hroot (Nat.le_of_lt (h.owned.height_lt_size hroot)) 1⟩

/-- Every node is at one of the places in the trees. -/
theorem nodes_subset_treePlaces (h : e.Coherent []) :
    e.network.nodes.map Prod.fst ⊆ e.treePlaces := by
  intro place hplace
  rcases List.mem_map.1 hplace with ⟨⟨_, node⟩, hmem, rfl⟩
  rcases h.exists_mem_visits (Network.mem_nodes_iff.1 hmem) with ⟨id, p, hp, -, v, hv, hid⟩
  exact List.mem_flatMap.2 ⟨(id, p), mem_toList_iff.2 hp, List.mem_map.2 ⟨v, hv, hid⟩⟩

/-- If no body has more nodes than the bound, the trees have at most that many places for every
registered constraint. -/
theorem length_treePlaces_le (h : e.Coherent spare) {bound : Nat}
    (hbound : ∀ (id : ConstraintId) (p : Production), e.productions[id]? = some p →
      p.constraint.body.nodeCount ≤ bound) :
    e.treePlaces.length ≤ e.registry.size * bound := by
  have htree : ∀ n ∈ e.productions.toList.map fun entry =>
      ((e.visits entry.2).map Network.Visit.id).length, n ≤ bound := by
    intro n hn
    rcases List.mem_map.1 hn with ⟨⟨id, p⟩, hmem, rfl⟩
    have hp := mem_toList_iff.1 hmem
    rw [List.length_map]
    exact (h.length_visits_le hp).trans (hbound id p hp)
  have hsum := List.sum_le_card_nsmul _ bound htree
  rwa [List.length_map, ← List.length_flatMap, Std.TreeMap.length_toList, ← h.size_registry,
    Nat.nsmul_eq_mul] at hsum

/-- If no body has more nodes than the bound, the network has at most that many for every
registered constraint, however much the constraints share. -/
theorem length_nodes_le (h : e.Coherent []) {bound : Nat}
    (hbound : ∀ (id : ConstraintId) (p : Production), e.productions[id]? = some p →
      p.constraint.body.nodeCount ≤ bound) :
    e.network.nodes.length ≤ e.registry.size * bound := by
  have hcover := e.network.nodup_places.length_le_of_subset h.nodes_subset_treePlaces
  rw [List.length_map] at hcover
  exact hcover.trans (h.length_treePlaces_le hbound)

end Coherent

/-! ## Bounds -/

/-- The network of an engine lies within the bounds that limits on formulas set. -/
structure Bounded (limits : Limits) (e : Engine) : Prop where
  /-- The number of nodes that is reported is that of the nodes that are there. -/
  size : e.network.size = e.network.nodes.length
  /-- A registration adds at most as many nodes as its body has. -/
  size_add : ∀ c, (e.add c).1.network.size ≤ e.network.size + c.body.nodeCount
  /-- The same for the nodes that are there, unless another constraint has the identity. -/
  nodes_add : ∀ c, e.Distinguishes c →
    (e.add c).1.network.nodes.length ≤ e.network.nodes.length + c.body.nodeCount
  /-- For each registered constraint there are at most as many nodes as a body may have. -/
  nodes : e.network.nodes.length ≤ e.registry.size * limits.maxNodes
  /-- No node is as high as a body may be. -/
  height : ∀ id node, e.network.node? id = some node → node.height < limits.maxDepth
  /-- The tree of a production is no larger than its body, and no place in it is empty. -/
  visits : ∀ (id : ConstraintId) (p : Production), e.productions[id]? = some p →
    (e.visits p).length ≤ p.constraint.body.nodeCount ∧
      ∀ v ∈ e.visits p, ∃ node, v.node = some node ∧ e.network.node? v.id = some node
  /-- A walk goes on below all children, down to the leaves. -/
  walks : ∀ id node level, e.network.node? id = some node →
    e.network.walk e.network.slots.size level id =
      ⟨level, id, some node⟩ ::
        node.key.children.flatMap (e.network.walk e.network.slots.size (level + 1))

/-- A coherent engine whose constraints are admissible lies within the bounds. -/
theorem Coherent.bounded {e : Engine} {limits : Limits} (h : e.Coherent [])
    (hadmitted : ∀ id c, e.registry.get? id = some c → limits.check c = none) :
    e.Bounded limits where
  size := h.owned.toSound.length_nodes.symm
  size_add := e.size_add_le
  nodes_add := by
    intro c hc
    have hle := e.size_add_le c
    rwa [← h.owned.toSound.length_nodes, ← (h.add hc).owned.toSound.length_nodes] at hle
  nodes := h.length_nodes_le fun id p hp => (h.admits hadmitted hp).nodes
  height := by
    intro place node hnode
    rcases h.exists_mem_visits hnode with ⟨id, p, hp, hlt, -⟩
    exact hlt.trans_le (h.admits hadmitted hp).depth
  visits := fun id p hp => ⟨h.length_visits_le hp, fun v hv => h.node_of_mem_visits hp hv⟩
  walks := fun id node level hnode => h.owned.walk_whole hnode level

/-- After every run that leaves only admissible constraints, the limits bound the network. -/
theorem bounded_of_run (config : RegistryConfig) (ops : List Operation) (limits : Limits)
    (hops : Unambiguous ops)
    (hadmitted : ∀ id c, ((initial config).run ops).registry.get? id = some c →
      limits.check c = none) :
    ((initial config).run ops).Bounded limits :=
  (reached config ops hops).1.bounded hadmitted

theorem bounded_twoRedelegations :
    Unambiguous twoRedelegations ∧
      (∀ id c, ((initial {}).run twoRedelegations).registry.get? id = some c →
        Limits.standard.check c = none) ∧
      ∃ p, ((initial {}).run twoRedelegations).productions[
          ConstraintId.derive (redelegation ⟨"p"⟩)]? = some p ∧
        ((initial {}).run twoRedelegations).Bounded Limits.standard := by
  have hfirst : Limits.standard.check (redelegation ⟨"p"⟩) = none := by decide
  have hsecond : Limits.standard.check (redelegation ⟨"q"⟩) = none := by decide
  have hadmitted : ∀ id c, ((initial {}).run twoRedelegations).registry.get? id = some c →
      Limits.standard.check c = none := by
    intro id c hc
    rcases reached {} twoRedelegations unambiguous_twoRedelegations with ⟨hcoherent, hadded⟩
    rw [hcoherent.registered, Option.map_eq_some_iff] at hc
    rcases hc with ⟨p, hp, rfl⟩
    have hop := hadded id p hp
    simp only [twoRedelegations, List.mem_cons, Operation.add.injEq, reduceCtorEq,
      List.not_mem_nil, or_false] at hop
    rcases hop with heq | heq
    · exact (congrArg Limits.standard.check heq).trans hfirst
    · exact (congrArg Limits.standard.check heq).trans hsecond
  rcases exists_production_twoRedelegations {} with ⟨p, hp⟩
  exact ⟨unambiguous_twoRedelegations, hadmitted, p, hp,
    bounded_of_run {} twoRedelegations Limits.standard unambiguous_twoRedelegations hadmitted⟩

end Engine
end Mandate
