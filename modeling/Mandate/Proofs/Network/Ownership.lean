import Mathlib.Algebra.BigOperators.Group.Finset.Basic
import Mathlib.Algebra.Order.BigOperators.Group.Finset
import Mandate.Proofs.Network.Soundness

/-!
# Counted references

A node is referred to by the nodes that have it as a child, once for every position, and from
outside.  As long as nobody gives back a reference that is not his, and no count wraps around, the
counts are exact, children are there, and children know their parents.

Main results:

- Definition `uses`: the child positions that hold a node.
- Definitions `HasRoom`, `HasRoomFor`: one more reference to a node does not wrap its count around.
- Definition `Owned`: the invariant, for the references that are held outside.
- Theorems `Owned.intern`, `Owned.giveBack`, `Owned.discard`: every operation keeps it.
-/

namespace Mandate
namespace Network

open Finset

/-! ## Child positions -/

/-- The children of the node at a place. -/
def childrenAt (net : Network) (id : NodeId) : List NodeId :=
  match net.node? id with
  | some node => node.key.children
  | none => []

/-- The number of child positions that hold a node; a child that is used twice counts twice. -/
def uses (net : Network) (id : NodeId) : Nat :=
  ∑ i ∈ range net.slots.size, (net.childrenAt ⟨i⟩).count id

theorem childrenAt_of_node? {net : Network} {id : NodeId} {node : Node}
    (h : net.node? id = some node) : net.childrenAt id = node.key.children := by
  simp [childrenAt, h]

theorem childrenAt_of_none {net : Network} {id : NodeId} (h : net.node? id = none) :
    net.childrenAt id = [] := by
  simp [childrenAt, h]

theorem uses_eq_sum (net : Network) (id : NodeId) {n : Nat} (hn : net.slots.size ≤ n) :
    net.uses id = ∑ i ∈ range n, (net.childrenAt ⟨i⟩).count id := by
  refine sum_subset (range_subset_range.2 hn) ?_
  intro i _ hi
  have hnone : net.node? ⟨i⟩ = none := node?_eq_none_of_size_le (by simpa using hi)
  simp [childrenAt_of_none hnone]

/-- When the children at a single place change, the count changes by the difference. -/
theorem uses_add_count {before after : Network} {place : NodeId}
    (h : ∀ j, j ≠ place → after.childrenAt j = before.childrenAt j) (id : NodeId) :
    after.uses id + (before.childrenAt place).count id =
      before.uses id + (after.childrenAt place).count id := by
  obtain ⟨k⟩ := place
  let n := before.slots.size + after.slots.size + k + 1
  have hplace : k ∈ range n := mem_range.2 (by omega)
  have hrest : ∑ i ∈ (range n).erase k, (after.childrenAt ⟨i⟩).count id =
      ∑ i ∈ (range n).erase k, (before.childrenAt ⟨i⟩).count id := by
    refine sum_congr rfl fun i hi => ?_
    have hne : (⟨i⟩ : NodeId) ≠ ⟨k⟩ := by
      intro heq
      obtain rfl : i = k := congrArg NodeId.index heq
      simp at hi
    rw [h _ hne]
  rw [uses_eq_sum after id (n := n) (by omega), uses_eq_sum before id (n := n) (by omega),
    ← add_sum_erase _ _ hplace, ← add_sum_erase _ _ hplace, hrest]
  omega

theorem uses_congr {before after : Network}
    (h : ∀ j, after.childrenAt j = before.childrenAt j) (id : NodeId) :
    after.uses id = before.uses id := by
  have hadd := @uses_add_count before after ⟨0⟩ (fun j _ => h j) id
  rw [h] at hadd
  omega

theorem uses_pos_iff {net : Network} {id : NodeId} :
    0 < net.uses id ↔ ∃ parent node, net.node? parent = some node ∧ id ∈ node.key.children := by
  constructor
  · intro hpos
    obtain ⟨i, -, hi⟩ := exists_ne_zero_of_sum_ne_zero (Nat.ne_of_gt hpos)
    have hmem : id ∈ net.childrenAt ⟨i⟩ := by
      rw [← List.count_pos_iff]
      omega
    cases hnode : net.node? ⟨i⟩ with
    | none => simp [childrenAt, hnode] at hmem
    | some node =>
      rw [childrenAt_of_node? hnode] at hmem
      exact ⟨⟨i⟩, node, hnode, hmem⟩
  · intro hparent
    rcases hparent with ⟨parent, node, hnode, hmem⟩
    have hcount : 0 < (net.childrenAt parent).count id := by
      rw [childrenAt_of_node? hnode]
      exact List.count_pos_iff.2 hmem
    have hrange : parent.index ∈ range net.slots.size := mem_range.2 (lt_size_of_node? hnode)
    have hle : (net.childrenAt parent).count id ≤ net.uses id :=
      single_le_sum (f := fun i => (net.childrenAt ⟨i⟩).count id) (fun _ _ => Nat.zero_le _) hrange
    omega

theorem SameGraph.childrenAt {before after : Network} (h : before.SameGraph after) (id : NodeId) :
    after.childrenAt id = before.childrenAt id := by
  cases hnode : before.node? id with
  | none =>
    have hnone : after.node? id = none := by
      rw [← Option.map_eq_none_iff (f := Node.links), h.links id, hnode, Option.map_none]
    rw [childrenAt_of_none hnode, childrenAt_of_none hnone]
  | some node =>
    obtain ⟨node', hnode', hkey, -⟩ := h.node? hnode
    rw [childrenAt_of_node? hnode, childrenAt_of_node? hnode', hkey]

theorem SameGraph.uses {before after : Network} (h : before.SameGraph after) (id : NodeId) :
    after.uses id = before.uses id :=
  uses_congr h.childrenAt id

/-! ## Room for references -/

/-- The count of a node does not wrap around with one more reference. -/
def HasRoom (net : Network) (id : NodeId) : Prop :=
  net.wrapsAt = 0 ∨ net.refcount id + 1 < net.wrapsAt

/-- If the node of a key is there, it has room for the reference that interning the key gives. -/
def HasRoomFor (net : Network) (key : NodeKey) : Prop :=
  ∀ id, net.find? key = some id → net.HasRoom id

/-- A count that has room is exact also after it has lost some references. -/
theorem HasRoom.succ_mod {net : Network} {id : NodeId} (h : net.HasRoom id) {n : Nat}
    (hn : n ≤ net.refcount id) : (n + 1) % net.wrapsAt = n + 1 := by
  rcases h with hzero | hlt
  · rw [hzero, Nat.mod_zero]
  · exact Nat.mod_eq_of_lt (by omega)

/-! ## The invariant -/

/-- The network is sound, every child is there and knows its parents, heights are exact, and every
node has as many references as child positions and the references `held` outside hold it, at least
one. -/
structure Owned (net : Network) (held : List NodeId) : Prop extends net.Sound where
  children : ∀ {id node c}, net.node? id = some node → c ∈ node.key.children →
    ∃ child, net.node? c = some child ∧ id ∈ child.parents
  parents_nodup : ∀ {id node}, net.node? id = some node → node.parents.Nodup
  height : ∀ {id node}, net.node? id = some node → node.height = net.heightOver node.key.children
  refcount : ∀ {id node}, net.node? id = some node → node.refcount = net.uses id + held.count id
  refcount_pos : ∀ {id node}, net.node? id = some node → 0 < node.refcount
  held_live : ∀ {id}, id ∈ held → net.Live id

theorem owned_empty {wrapsAt : Nat} : ({ wrapsAt } : Network).Owned [] := by
  have hnone : ∀ id, ({ wrapsAt } : Network).node? id = none := fun id => by simp [node?]
  refine ⟨sound_empty, ?_, ?_, ?_, ?_, ?_, ?_⟩ <;> simp [hnone]

namespace Owned

variable {net : Network} {held : List NodeId}

theorem child_live (h : net.Owned held) {id c : NodeId} {node : Node}
    (hnode : net.node? id = some node) (hc : c ∈ node.key.children) : net.Live c := by
  obtain ⟨child, hchild, -⟩ := h.children hnode hc
  exact ⟨child, hchild⟩

/-- A child is lower than its parent. -/
theorem child_height_lt (h : net.Owned held) {id c : NodeId} {node child : Node}
    (hnode : net.node? id = some node) (hc : c ∈ node.key.children)
    (hchild : net.node? c = some child) : child.height < node.height := by
  rw [h.height hnode]
  exact height_lt_heightOver hchild hc

theorem not_mem_children_self (h : net.Owned held) {id : NodeId} {node : Node}
    (hnode : net.node? id = some node) : id ∉ node.key.children := fun hmem =>
  Nat.lt_irrefl _ (h.child_height_lt hnode hmem hnode)

/-- Only the places and the number of the references held outside matter, not their order. -/
theorem congr {held' : List NodeId} (h : net.Owned held)
    (hcount : ∀ id, held'.count id = held.count id) : net.Owned held' := by
  refine ⟨h.toSound, h.children, h.parents_nodup, h.height, ?_, h.refcount_pos, ?_⟩
  · intro id node hnode
    rw [hcount]
    exact h.refcount hnode
  · intro id hid
    have hpos : 0 < held.count id := hcount id ▸ List.count_pos_iff.2 hid
    exact h.held_live (List.count_pos_iff.1 hpos)

theorem perm {held' : List NodeId} (h : net.Owned held) (hperm : held.Perm held') :
    net.Owned held' :=
  h.congr fun id => (hperm.count_eq id).symm

/-- Everything but the counts follows from the graph. -/
theorem of_sameGraph {after : Network} {held' : List NodeId} (h : net.Owned held)
    (hsame : net.SameGraph after) (hsound : after.Sound)
    (hrefcount : ∀ {id node}, after.node? id = some node →
      node.refcount = net.uses id + held'.count id ∧ 0 < node.refcount)
    (hlive : ∀ {id}, id ∈ held' → net.Live id) : after.Owned held' where
  toSound := hsound
  children := by
    intro id node c hnode hc
    obtain ⟨old, hold, hkey, -⟩ := hsame.symm.node? hnode
    obtain ⟨child, hchild, hmem⟩ := h.children hold (hkey ▸ hc)
    obtain ⟨child', hchild', -, -, hparents⟩ := hsame.node? hchild
    exact ⟨child', hchild', hparents ▸ hmem⟩
  parents_nodup := by
    intro id node hnode
    obtain ⟨old, hold, -, -, hparents⟩ := hsame.symm.node? hnode
    exact hparents ▸ h.parents_nodup hold
  height := by
    intro id node hnode
    obtain ⟨old, hold, hkey, hheight, -⟩ := hsame.symm.node? hnode
    have hover : after.heightOver node.key.children = net.heightOver node.key.children :=
      heightOver_congr fun c _ => hsame.map_height c
    rw [hover, ← hheight, ← hkey]
    exact h.height hold
  refcount := by
    intro id node hnode
    rw [hsame.uses]
    exact (hrefcount hnode).1
  refcount_pos := fun hnode => (hrefcount hnode).2
  held_live := fun hid => hsame.live (hlive hid)

/-- A change that leaves links and references alone keeps the invariant. -/
theorem sameGraph {after : Network} (h : net.Owned held) (hsame : net.SameGraph after)
    (hrefcount : ∀ id, after.refcount id = net.refcount id)
    (hdirty : ∀ due ∈ after.dirty,
      ∃ node, after.node? due.id = some node ∧ node.height = due.height) : after.Owned held := by
  refine h.of_sameGraph hsame (h.toSound.sameGraph hsame hdirty) ?_ h.held_live
  intro id node hnode
  obtain ⟨old, hold, -⟩ := hsame.symm.node? hnode
  have heq : node.refcount = old.refcount := by
    rw [← refcount_of_node? hnode, ← refcount_of_node? hold, hrefcount]
  rw [heq]
  exact ⟨h.refcount hold, h.refcount_pos hold⟩

/-! ## Interning -/

/-- What a key needs before it is interned: one reference to each of its children. -/
theorem share {key : NodeKey} {id : NodeId} (h : net.Owned (key.children ++ held))
    (hfind : net.find? key = some id) (hroom : net.HasRoom id) :
    (net.intern key).1.Owned (id :: held) := by
  obtain ⟨node, hnode, hkey⟩ := h.find?_eq_some_iff.1 hfind
  refine h.of_sameGraph (sameGraph_intern hfind) (h.toSound.intern (hkey ▸ h.keys hnode)) ?_ ?_
  · intro j shared hshared
    rw [node?_intern_of_find? hfind, Option.map_eq_some_iff] at hshared
    obtain ⟨old, hold, rfl⟩ := hshared
    have hcount := h.refcount hold
    have hpos := h.refcount_pos hold
    rw [List.count_append] at hcount
    -- the node that is already there holds the children, so none of them loses its last reference
    have huses : j ∈ key.children → 0 < net.uses j := fun hmem =>
      uses_pos_iff.2 ⟨id, node, hnode, hkey ▸ hmem⟩
    have hzero : j ∉ key.children → key.children.count j = 0 := List.count_eq_zero.2
    by_cases hj : j = id
    · subst hj
      have hexact := hroom.succ_mod (n := old.refcount - key.children.count j)
        (by rw [refcount_of_node? hold]; omega)
      simp only [shareReferences, if_true, List.count_cons_self, hexact]
      omega
    · have hne : id ≠ j := fun heq => hj heq.symm
      simp only [shareReferences, if_neg hj, List.count_cons_of_ne hne]
      by_cases hmem : j ∈ key.children
      · have := huses hmem
        omega
      · have := hzero hmem
        omega
  · intro j hj
    rcases List.mem_cons.1 hj with rfl | hj
    · exact ⟨node, hnode⟩
    · exact h.held_live (List.mem_append_right _ hj)

/-- The places that name children after a node has been created. -/
theorem childrenAt_create (h : net.Sound) (key : NodeKey) (j : NodeId) (hj : j ≠ net.nextId) :
    (net.create key).1.childrenAt j = net.childrenAt j := by
  unfold childrenAt
  rw [h.node?_create, if_neg hj]
  cases net.node? j <;> simp

theorem uses_create (h : net.Sound) (key : NodeKey) (j : NodeId) :
    (net.create key).1.uses j = net.uses j + key.children.count j := by
  have hadd := uses_add_count (childrenAt_create h key) j
  rw [childrenAt_of_none h.node?_nextId, childrenAt_of_node? (h.node?_create_nextId key)] at hadd
  simpa [newNode] using hadd

/-- The place of a new node is named by nobody. -/
theorem count_nextId (h : net.Owned held) :
    net.uses net.nextId = 0 ∧ held.count net.nextId = 0 := by
  constructor
  · by_contra hne
    obtain ⟨parent, node, hnode, hmem⟩ := uses_pos_iff.1 (Nat.pos_of_ne_zero hne)
    exact Live.ne (h.child_live hnode hmem) h.node?_nextId rfl
  · rw [List.count_eq_zero]
    intro hmem
    exact Live.ne (h.held_live hmem) h.node?_nextId rfl

theorem create {key : NodeKey} (h : net.Owned (key.children ++ held)) (hkey : key.WellFormed)
    (hnew : net.find? key = none) : (net.create key).1.Owned (net.nextId :: held) where
  toSound := h.toSound.create hkey hnew
  children := by
    intro id node c hnode hc
    rcases h.node?_create_cases hnode with ⟨rfl, rfl⟩ | ⟨old, hold, rfl⟩
    · obtain ⟨child, hchild⟩ := h.held_live (List.mem_append_left held hc)
      exact ⟨_, h.node?_create_of_node? key hchild, mem_parents_besideNew_iff.2 (Or.inr ⟨rfl, hc⟩)⟩
    · rw [besideNew_key] at hc
      obtain ⟨child, hchild, hmem⟩ := h.children hold hc
      exact ⟨_, h.node?_create_of_node? key hchild, mem_parents_besideNew_iff.2 (Or.inl hmem)⟩
  parents_nodup := by
    intro id node hnode
    rcases h.node?_create_cases hnode with ⟨rfl, rfl⟩ | ⟨old, hold, rfl⟩
    · exact List.nodup_nil
    · exact nodup_parents_besideNew (h.parents_nodup hold)
  height := by
    have hover : ∀ {node : Node} {id : NodeId}, net.node? id = some node →
        ((net.create key).1.node? id).map Node.height = (net.node? id).map Node.height := by
      intro node id hnode
      rw [h.node?_create_of_node? key hnode, hnode]
      simp
    intro id node hnode
    rcases h.node?_create_cases hnode with ⟨rfl, rfl⟩ | ⟨old, hold, rfl⟩
    · refine (heightOver_congr fun c hc => ?_).symm
      obtain ⟨child, hchild⟩ := h.held_live (List.mem_append_left held hc)
      exact hover hchild
    · rw [besideNew_height, besideNew_key, h.height hold]
      refine (heightOver_congr fun c hc => ?_).symm
      obtain ⟨child, hchild, -⟩ := h.children hold hc
      exact hover hchild
  refcount := by
    intro id node hnode
    have hnext := h.count_nextId
    rw [uses_create h.toSound]
    rcases h.node?_create_cases hnode with ⟨rfl, rfl⟩ | ⟨old, hold, rfl⟩
    · rw [List.count_append] at hnext
      simp only [newNode, List.count_cons_self]
      omega
    · have hne : net.nextId ≠ id := (Live.ne ⟨old, hold⟩ h.node?_nextId).symm
      have hcount := h.refcount hold
      rw [List.count_append] at hcount
      rw [besideNew_refcount, List.count_cons_of_ne hne]
      omega
  refcount_pos := by
    intro id node hnode
    rcases h.node?_create_cases hnode with ⟨rfl, rfl⟩ | ⟨old, hold, rfl⟩
    · exact Nat.one_pos
    · rw [besideNew_refcount]
      exact h.refcount_pos hold
  held_live := by
    intro id hid
    rcases List.mem_cons.1 hid with rfl | hid
    · exact ⟨_, h.node?_create_nextId key⟩
    · exact (h.keeps_create key).live (h.held_live (List.mem_append_right _ hid))

/-- Interning takes one reference to each child and gives one to the node. -/
theorem intern {key : NodeKey} (h : net.Owned (key.children ++ held)) (hkey : key.WellFormed)
    (hroom : net.HasRoomFor key) : (net.intern key).1.Owned ((net.intern key).2 :: held) := by
  cases hfind : net.find? key with
  | some id =>
    rw [intern_of_find? hfind]
    have hshare := h.share hfind (hroom id hfind)
    rwa [intern_of_find? hfind] at hshare
  | none =>
    rw [intern_of_none hfind]
    exact h.create hkey hfind

/-! ## Giving references back -/

/-- A node with more than one reference only loses one. -/
theorem giveBack {id : NodeId} {node : Node} (h : net.Owned (id :: held))
    (hnode : net.node? id = some node) (hmore : 1 < node.refcount) :
    (net.giveBack id).Owned held := by
  have hsame := sameGraph_giveBack net id
  refine h.of_sameGraph hsame (h.toSound.sameGraph_of_dirty hsame fun _ hdue => hdue) ?_ ?_
  · intro j after hafter
    rw [Network.giveBack, node?_modify] at hafter
    by_cases hj : j = id
    · subst hj
      rw [if_pos rfl, hnode] at hafter
      obtain rfl := Option.some.inj hafter
      have hcount := h.refcount hnode
      rw [List.count_cons_self] at hcount
      constructor
      · simp only
        omega
      · simp only
        omega
    · rw [if_neg hj] at hafter
      have hne : id ≠ j := fun heq => hj heq.symm
      have hcount := h.refcount hafter
      rw [List.count_cons_of_ne hne] at hcount
      exact ⟨hcount, h.refcount_pos hafter⟩
  · intro j hj
    exact h.held_live (List.mem_cons_of_mem _ hj)

/-- Nobody else refers to a node whose last reference is given back. -/
theorem last_reference {id : NodeId} {node : Node} (h : net.Owned (id :: held))
    (hnode : net.node? id = some node) (hlast : ¬ 1 < node.refcount) :
    net.uses id = 0 ∧ held.count id = 0 := by
  have hcount := h.refcount hnode
  rw [List.count_cons_self] at hcount
  omega

theorem childrenAt_discard (net : Network) (id : NodeId) (gone : Node) (j : NodeId) (hj : j ≠ id) :
    (net.discard id gone).childrenAt j = net.childrenAt j := by
  unfold childrenAt
  rw [node?_discard, if_neg hj]
  cases net.node? j <;> simp

theorem uses_discard {id : NodeId} {gone : Node} (hgone : net.node? id = some gone) (j : NodeId) :
    (net.discard id gone).uses j + gone.key.children.count j = net.uses j := by
  have hadd := uses_add_count (childrenAt_discard net id gone) j
  have hnone : (net.discard id gone).node? id = none := by
    rw [node?_discard, if_pos rfl]
  rw [childrenAt_of_none hnone, childrenAt_of_node? hgone] at hadd
  simpa using hadd

/-- A node whose last reference is given back leaves its references to children behind. -/
theorem discard {id : NodeId} {gone : Node} (h : net.Owned (id :: held))
    (hgone : net.node? id = some gone) (hlast : ¬ 1 < gone.refcount) :
    (net.discard id gone).Owned (gone.key.children ++ held) := by
  obtain ⟨huses, hheld⟩ := h.last_reference hgone hlast
  -- neither a child position nor the outside names the place that becomes empty
  have hchild : ∀ {j node c}, net.node? j = some node → c ∈ node.key.children → c ≠ id := by
    rintro j node c hnode hc rfl
    have hpos := uses_pos_iff.2 ⟨j, node, hnode, hc⟩
    omega
  refine ⟨h.toSound.discard hgone, ?_, ?_, ?_, ?_, ?_, ?_⟩
  · intro j node c hnode hc
    obtain ⟨hne, old, hold, rfl⟩ := Sound.node?_discard_cases hnode
    rw [besideGap_key] at hc
    obtain ⟨child, hlive, hmem⟩ := h.children hold hc
    refine ⟨_, Sound.node?_discard_of_node? (hchild hold hc) hlive, ?_⟩
    exact mem_parents_besideGap_iff.2 ⟨hmem, fun hgap => hne hgap.1⟩
  · intro j node hnode
    obtain ⟨-, old, hold, rfl⟩ := Sound.node?_discard_cases hnode
    exact nodup_parents_besideGap (h.parents_nodup hold)
  · intro j node hnode
    obtain ⟨-, old, hold, rfl⟩ := Sound.node?_discard_cases hnode
    rw [besideGap_height, besideGap_key, h.height hold]
    refine (heightOver_congr fun c hc => ?_).symm
    obtain ⟨child, hlive, -⟩ := h.children hold hc
    rw [Sound.node?_discard_of_node? (hchild hold hc) hlive, hlive]
    simp
  · intro j node hnode
    obtain ⟨hne, old, hold, rfl⟩ := Sound.node?_discard_cases hnode
    have hcount := h.refcount hold
    have hless := uses_discard hgone j
    rw [List.count_cons_of_ne hne.symm] at hcount
    rw [besideGap_refcount, List.count_append]
    omega
  · intro j node hnode
    obtain ⟨-, old, hold, rfl⟩ := Sound.node?_discard_cases hnode
    rw [besideGap_refcount]
    exact h.refcount_pos hold
  · intro j hj
    have hlive : net.Live j ∧ j ≠ id := by
      rcases List.mem_append.1 hj with hj | hj
      · exact ⟨h.child_live hgone hj, hchild hgone hj⟩
      · refine ⟨h.held_live (List.mem_cons_of_mem _ hj), ?_⟩
        rintro rfl
        exact List.count_eq_zero.1 hheld hj
    obtain ⟨⟨node, hnode⟩, hne⟩ := hlive
    exact ⟨_, Sound.node?_discard_of_node? hne hnode⟩

end Owned
end Network
end Mandate
