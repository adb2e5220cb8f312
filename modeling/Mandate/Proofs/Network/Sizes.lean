import Mandate.Proofs.Network.Building

/-!
# The sizes of networks

The circuit of a constraint has no more operators than the formula has nodes, and is lower than the
formula: a predicate becomes two nodes besides its limit, and a period none.  Building a circuit
adds at most one node to the network for every operator, and releasing adds none.

Main results:

- Theorems `Formula.Lowers.size_le`, `Formula.Lowers.height_lt`: the circuit of a formula.
- Theorems `Network.size_build_le`, `Network.size_release_le`: how networks grow.
- Theorem `Network.Sound.length_nodes`: the nodes are as many as the keys that name them.
-/

namespace Mandate

/-! ## Circuits -/

section Lowers

variable {t : Term} {owner : PermId} {p : Predicate} {f : Formula} {c : Circuit}

theorem Term.Lowers.size_eq (h : t.Lowers c) : c.size = t.nodeCount := by
  induction h with
  | literal _ => rfl
  | @fact t key hkey => cases t <;> cases hkey <;> rfl
  | add _ _ ihl ihr => rw [Circuit.size, Term.nodeCount, ihl, ihr]
  | sub _ _ ihl ihr => rw [Circuit.size, Term.nodeCount, ihl, ihr]

theorem Term.Lowers.height_lt (h : t.Lowers c) : c.height < t.depth := by
  induction h with
  | literal _ => exact Nat.one_pos
  | @fact t key hkey => cases t <;> cases hkey <;> exact Nat.one_pos
  | add _ _ ihl ihr =>
    rw [Circuit.height, Term.depth]
    omega
  | sub _ _ ihl ihr =>
    rw [Circuit.height, Term.depth]
    omega

/-- A limit becomes a comparison of its fact with it. -/
theorem Predicate.Lowers.size_le (h : p.Lowers owner c) : c.size ≤ 1 + p.nodeCount := by
  cases h with
  | maxDelegationDepth hlimit =>
    simp only [Circuit.size, Circuit.fact, Predicate.nodeCount, hlimit.size_eq]
    omega
  | rateLimit _ hlimit =>
    simp only [Circuit.size, Circuit.fact, Predicate.nodeCount, hlimit.size_eq]
    omega
  | _ => exact Nat.le_add_right 1 _

theorem Predicate.Lowers.height_lt (h : p.Lowers owner c) : c.height < p.depth := by
  cases h with
  | maxDelegationDepth hlimit =>
    have hlt := hlimit.height_lt
    simp only [Circuit.height, Circuit.fact, Predicate.depth]
    omega
  | rateLimit _ hlimit =>
    have hlt := hlimit.height_lt
    simp only [Circuit.height, Circuit.fact, Predicate.depth]
    omega
  | _ => exact Nat.one_pos

/-- The circuit of a formula has no more operators than the formula has nodes. -/
theorem Formula.Lowers.size_le (h : f.Lowers owner c) : c.size ≤ f.nodeCount := by
  induction h with
  | not _ ih =>
    rw [Circuit.size, Formula.nodeCount]
    omega
  | and _ _ ihl ihr | or _ _ ihl ihr =>
    rw [Circuit.size, Formula.nodeCount]
    omega
  | compare hl hr => rw [Circuit.size, Formula.nodeCount, hl.size_eq, hr.size_eq]
  | base hp => exact hp.size_le

/-- The circuit of a formula is lower than the formula, whose leaves count as one. -/
theorem Formula.Lowers.height_lt (h : f.Lowers owner c) : c.height < f.depth := by
  induction h with
  | not _ ih =>
    rw [Circuit.height, Formula.depth]
    omega
  | and _ _ ihl ihr | or _ _ ihl ihr =>
    rw [Circuit.height, Formula.depth]
    omega
  | compare hl hr =>
    have hleft := hl.height_lt
    have hright := hr.height_lt
    rw [Circuit.height, Formula.depth]
    omega
  | base hp =>
    have hlt := hp.height_lt
    rw [Formula.depth]
    omega

end Lowers

namespace Network

/-! ## Growing and shrinking -/

theorem size_intern_le (net : Network) (key : NodeKey) :
    (net.intern key).1.size ≤ net.size + 1 := by
  unfold size
  cases hfind : net.find? key with
  | some id =>
    rw [intern_of_find? hfind]
    exact Nat.le_succ _
  | none =>
    rw [intern_of_none hfind, create_frame]
    exact Std.HashMap.size_insert_le

/-- Building adds at most one node for every operator. -/
theorem size_build_le (net : Network) (c : Circuit) :
    (net.build c).network.size ≤ net.size + c.size := by
  induction c generalizing net with
  | leaf op => exact net.size_intern_le ⟨op, []⟩
  | unary op arg ih =>
    have harg := ih net
    have hlast := (net.build arg).network.size_intern_le ⟨op, [(net.build arg).root]⟩
    simp only [build, Circuit.size]
    omega
  | binary op left right ihl ihr =>
    have hleft := ihl net
    have hright := ihr (net.build left).network
    have hlast := ((net.build left).network.build right).network.size_intern_le
      ⟨op, [(net.build left).root, ((net.build left).network.build right).root]⟩
    simp only [build, Circuit.size]
    omega

theorem size_releaseAll_le (net : Network) (dropped : List FactKey) (ids : List NodeId) :
    (net.releaseAll dropped ids).network.size ≤ net.size := by
  fun_induction Network.releaseAll net dropped ids with
  | case1 net dropped => exact Nat.le_refl _
  | case2 net dropped id rest hnone ih => exact ih
  | case3 net dropped id rest node hnode hmore ih => exact ih
  | case4 net dropped id rest node hnode hlast ih =>
    refine ih.trans ?_
    unfold size
    rw [discard_frame]
    exact Std.HashMap.size_erase_le

/-- Releasing adds no nodes. -/
theorem size_release_le (net : Network) (id : NodeId) :
    (net.release id).network.size ≤ net.size :=
  net.size_releaseAll_le [] [id]

/-! ## The list of nodes -/

theorem mem_nodes_iff {net : Network} {id : NodeId} {node : Node} :
    (id, node) ∈ net.nodes ↔ net.node? id = some node := by
  rw [node?_eq_some_iff, nodes, List.mem_filterMap]
  constructor
  · rintro ⟨⟨slot, i⟩, hmem, hslot⟩
    rw [List.mem_zipIdx_iff_getElem?] at hmem
    rcases Option.map_eq_some_iff.1 hslot with ⟨here, rfl, heq⟩
    rw [Prod.mk.injEq] at heq
    rcases heq with ⟨rfl, rfl⟩
    simpa using hmem
  · intro hnode
    refine ⟨(some node, id.index), ?_, rfl⟩
    rw [List.mem_zipIdx_iff_getElem?]
    simpa using hnode

/-- No place is listed twice. -/
theorem nodup_places (net : Network) : (net.nodes.map Prod.fst).Nodup := by
  have hindices : net.slots.toList.zipIdx.Pairwise fun a b => a.2 ≠ b.2 := by
    rw [← List.pairwise_map (f := Prod.snd), List.zipIdx_map_snd]
    exact List.nodup_range'
  rw [List.Nodup, List.pairwise_map, nodes, List.pairwise_filterMap]
  refine hindices.imp fun {a b} hne x hx y hy heq => ?_
  rcases Option.map_eq_some_iff.1 hx with ⟨_, -, rfl⟩
  rcases Option.map_eq_some_iff.1 hy with ⟨_, -, rfl⟩
  exact hne (congrArg NodeId.index heq)

/-- The nodes are as many as the keys that name them. -/
theorem Sound.length_nodes {net : Network} (h : net.Sound) : net.nodes.length = net.size := by
  have hkeys : (net.interned.toList.map Prod.snd).Nodup := by
    rw [List.Nodup, List.pairwise_map]
    refine net.interned.distinct_keys_toList.imp_of_mem fun {a b} ha hb hne heq => ?_
    rcases a with ⟨key, id⟩
    rcases b with ⟨key', id'⟩
    rw [Std.HashMap.mem_toList_iff_getElem?_eq_some] at ha hb
    rcases (h.interned_iff key id).1 ha with ⟨node, hnode, rfl⟩
    rcases (h.interned_iff key' id').1 hb with ⟨node', hnode', rfl⟩
    have hid : id = id' := heq
    rw [hid, hnode', Option.some.injEq] at hnode
    simp [hnode] at hne
  have hperm : (net.nodes.map Prod.fst).Perm (net.interned.toList.map Prod.snd) := by
    refine (List.perm_ext_iff_of_nodup net.nodup_places hkeys).2 fun id => ?_
    simp only [List.mem_map, Prod.exists, exists_and_right, exists_eq_right, mem_nodes_iff,
      Std.HashMap.mem_toList_iff_getElem?_eq_some, h.interned_iff]
    constructor
    · rintro ⟨node, hnode⟩
      exact ⟨node.key, node, hnode, rfl⟩
    · rintro ⟨key, node, hnode, -⟩
      exact ⟨node, hnode⟩
  have hlength := hperm.length_eq
  rwa [List.length_map, List.length_map, Std.HashMap.length_toList] at hlength

end Network
end Mandate
