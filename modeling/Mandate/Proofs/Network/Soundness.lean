import Mandate.Proofs.Network.Nodes

/-!
# Sound networks

The indices of a network agree with its places, whatever happens to the references: a free place is
empty, a key and a fact lead to the node that has them, what is pending is there, and parents are
higher than their children.

Main results:

- Definition `Sound`: the invariant.
- Theorems `Sound.intern`, `Sound.discard`, `Sound.sameGraph`: every operation keeps it.
- Theorem `Sound.eq_of_key`: two nodes with the same key are one.
- Theorem `Sound.isSubscribed_iff`: a fact is followed if and only if a leaf is there for it.
-/

namespace Mandate

theorem Operator.mem_fact?_iff {op : Operator} {fact : FactKey} :
    fact ∈ op.fact?.toList ↔ op = .fact fact := by
  cases op <;> simp [Operator.fact?, eq_comm]

/-- A leaf that follows a fact has no children, and no node has more than two. -/
structure NodeKey.WellFormed (key : NodeKey) : Prop where
  leaf : ∀ fact, key.op = .fact fact → key.children = []
  arity : key.children.length ≤ 2

/-- The key of a leaf. -/
def NodeKey.leaf (fact : FactKey) : NodeKey :=
  ⟨.fact fact, []⟩

theorem NodeKey.WellFormed.eq_leaf {key : NodeKey} {fact : FactKey} (h : key.WellFormed)
    (hop : key.op = .fact fact) : key = NodeKey.leaf fact := by
  have hchildren := h.leaf fact hop
  cases key
  simp_all [NodeKey.leaf]

namespace Network

theorem mem_subscriptions_iff {net : Network} {fact : FactKey} :
    fact ∈ net.subscriptions ↔ net.isSubscribed fact = true := by
  unfold subscriptions isSubscribed
  rw [Std.TreeMap.mem_keys, Std.TreeMap.mem_iff_contains]

/-- Nothing is known of a fact that nobody follows. -/
theorem input_of_not_subscribed {net : Network} {fact : FactKey}
    (h : ¬ net.isSubscribed fact = true) : net.input fact = none := by
  have hleaf : net.leaves[fact]? = none := by
    refine Std.TreeMap.getElem?_eq_none ?_
    rw [Std.TreeMap.mem_iff_contains]
    exact h
  simp [input, leaf?, hleaf]

/-- The indices agree with the places, and parents are higher than children. -/
structure Sound (net : Network) : Prop where
  free_nodup : net.free.Nodup
  mem_free_iff : ∀ id, id ∈ net.free ↔ id.index < net.slots.size ∧ net.node? id = none
  interned_iff : ∀ key id,
    net.interned[key]? = some id ↔ ∃ node, net.node? id = some node ∧ node.key = key
  leaves_iff : ∀ fact id,
    net.leaves[fact]? = some id ↔ ∃ node, net.node? id = some node ∧ node.key.op = .fact fact
  dirty : ∀ due ∈ net.dirty, ∃ node, net.node? due.id = some node ∧ node.height = due.height
  parents : ∀ {id node parent}, net.node? id = some node → parent ∈ node.parents →
    ∃ above, net.node? parent = some above ∧ id ∈ above.key.children ∧ node.height < above.height
  keys : ∀ {id node}, net.node? id = some node → node.key.WellFormed

theorem sound_empty {wrapsAt : Nat} : ({ wrapsAt } : Network).Sound := by
  have hnone : ∀ id, ({ wrapsAt } : Network).node? id = none := fun id => by simp [node?]
  constructor <;> simp [hnone]

namespace Sound

variable {net : Network}

/-- A key names at most one node. -/
theorem eq_of_key (h : net.Sound) {i j : NodeId} {a b : Node} (hi : net.node? i = some a)
    (hj : net.node? j = some b) (hkey : a.key = b.key) : i = j := by
  have hleft := (h.interned_iff b.key i).2 ⟨a, hi, hkey⟩
  have hright := (h.interned_iff b.key j).2 ⟨b, hj, rfl⟩
  exact Option.some.inj (hleft.symm.trans hright)

theorem find?_eq_some_iff (h : net.Sound) {key : NodeKey} {id : NodeId} :
    net.find? key = some id ↔ ∃ node, net.node? id = some node ∧ node.key = key :=
  h.interned_iff key id

theorem find?_eq_none_iff (h : net.Sound) {key : NodeKey} :
    net.find? key = none ↔ ∀ id node, net.node? id = some node → node.key ≠ key := by
  constructor
  · intro hnone id node hnode hkey
    rw [h.find?_eq_some_iff.2 ⟨node, hnode, hkey⟩] at hnone
    exact absurd hnone (by simp)
  · intro hne
    cases hfind : net.find? key with
    | none => rfl
    | some id =>
      obtain ⟨node, hnode, hkey⟩ := h.find?_eq_some_iff.1 hfind
      exact (hne id node hnode hkey).elim

/-- A node with the fact of a leaf has the key of the leaf. -/
theorem key_eq_leaf (h : net.Sound) {id : NodeId} {node : Node} {fact : FactKey}
    (hnode : net.node? id = some node) (hop : node.key.op = .fact fact) :
    node.key = NodeKey.leaf fact :=
  (h.keys hnode).eq_leaf hop

/-- A fact has at most one leaf. -/
theorem eq_of_fact (h : net.Sound) {i j : NodeId} {a b : Node} {fact : FactKey}
    (hi : net.node? i = some a) (hj : net.node? j = some b) (ha : a.key.op = .fact fact)
    (hb : b.key.op = .fact fact) : i = j := by
  refine h.eq_of_key hi hj ?_
  rw [h.key_eq_leaf hi ha, h.key_eq_leaf hj hb]

theorem isSubscribed_iff (h : net.Sound) (fact : FactKey) :
    net.isSubscribed fact = true ↔
      ∃ id node, net.node? id = some node ∧ node.key.op = .fact fact := by
  unfold isSubscribed
  rw [← Std.TreeMap.mem_iff_contains, Std.TreeMap.mem_iff_isSome_getElem?, Option.isSome_iff_exists]
  constructor
  · rintro ⟨id, hid⟩
    exact ⟨id, (h.leaves_iff fact id).1 hid⟩
  · rintro ⟨id, hid⟩
    exact ⟨id, (h.leaves_iff fact id).2 hid⟩

/-- The leaf of a fact is the node that follows it. -/
theorem leaf?_eq_some_iff (h : net.Sound) {fact : FactKey} {node : Node} :
    net.leaf? fact = some node ↔ ∃ id, net.node? id = some node ∧ node.key.op = .fact fact := by
  unfold leaf?
  rw [Option.bind_eq_some_iff]
  constructor
  · rintro ⟨id, hid, hnode⟩
    obtain ⟨node', hnode', hop⟩ := (h.leaves_iff fact id).1 hid
    obtain rfl : node' = node := Option.some.inj (hnode'.symm.trans hnode)
    exact ⟨id, hnode, hop⟩
  · rintro ⟨id, hnode, hop⟩
    exact ⟨id, (h.leaves_iff fact id).2 ⟨node, hnode, hop⟩, hnode⟩

theorem input_of_node? (h : net.Sound) {id : NodeId} {node : Node} {fact : FactKey}
    (hnode : net.node? id = some node) (hop : node.key.op = .fact fact) :
    net.input fact = node.input := by
  have hleaf : net.leaf? fact = some node := h.leaf?_eq_some_iff.2 ⟨id, hnode, hop⟩
  simp [input, hleaf]

/-- A graph stays sound as long as the links stay and what is pending is there. -/
theorem sameGraph {after : Network} (h : net.Sound) (hsame : net.SameGraph after)
    (hdirty : ∀ due ∈ after.dirty,
      ∃ node, after.node? due.id = some node ∧ node.height = due.height) : after.Sound where
  free_nodup := hsame.free ▸ h.free_nodup
  mem_free_iff id := by
    have hnone : after.node? id = none ↔ net.node? id = none := by
      rw [← Option.map_eq_none_iff (f := Node.links), hsame.links id, Option.map_eq_none_iff]
    rw [hsame.free, hsame.size, hnone]
    exact h.mem_free_iff id
  interned_iff key id := by
    rw [hsame.interned, h.interned_iff, hsame.exists_node?_iff fun k => k = key]
  leaves_iff fact id := by
    rw [hsame.leaves, h.leaves_iff, hsame.exists_node?_iff fun k => k.op = .fact fact]
  dirty := hdirty
  parents := by
    intro id node parent hnode hparent
    obtain ⟨old, hold, -, hheight, hparents⟩ := hsame.symm.node? hnode
    obtain ⟨above, habove, hmem, hlt⟩ := h.parents hold (hparents ▸ hparent)
    obtain ⟨above', habove', hkey', hheight', -⟩ := hsame.node? habove
    exact ⟨above', habove', hkey' ▸ hmem, by omega⟩
  keys := by
    intro id node hnode
    obtain ⟨old, hold, hkey, -⟩ := hsame.symm.node? hnode
    exact hkey ▸ h.keys hold

/-- It stays sound if nothing becomes pending. -/
theorem sameGraph_of_dirty {after : Network} (h : net.Sound) (hsame : net.SameGraph after)
    (hdirty : ∀ due ∈ after.dirty, due ∈ net.dirty) : after.Sound := by
  refine h.sameGraph hsame fun due hdue => ?_
  obtain ⟨node, hnode, hheight⟩ := h.dirty due (hdirty due hdue)
  obtain ⟨node', hnode', -, hheight', -⟩ := hsame.node? hnode
  exact ⟨node', hnode', hheight'.trans hheight⟩

end Sound

/-! ## Heights -/

/-- The step of `heightOver` at one child. -/
def raise (net : Network) (height : Nat) (id : NodeId) : Nat :=
  match net.node? id with
  | some node => max height (node.height + 1)
  | none => height

theorem le_foldl_raise (net : Network) (ids : List NodeId) (height : Nat) :
    height ≤ ids.foldl net.raise height := by
  induction ids generalizing height with
  | nil => exact Nat.le_refl _
  | cons id ids ih =>
    have hstep : height ≤ net.raise height id := by
      unfold raise
      split
      · exact Nat.le_max_left _ _
      · exact Nat.le_refl _
    exact Nat.le_trans hstep (ih _)

theorem height_lt_foldl_raise {net : Network} {id : NodeId} {node : Node}
    (hnode : net.node? id = some node) {ids : List NodeId} (hmem : id ∈ ids) (height : Nat) :
    node.height < ids.foldl net.raise height := by
  induction ids generalizing height with
  | nil => simp at hmem
  | cons first ids ih =>
    rw [List.foldl_cons]
    rcases List.mem_cons.1 hmem with rfl | hmem
    · have hstep : node.height + 1 ≤ net.raise height id := by
        simp only [raise, hnode]
        exact Nat.le_max_right _ _
      exact Nat.lt_of_lt_of_le (Nat.lt_succ_self _) (Nat.le_trans hstep (le_foldl_raise net ids _))
    · exact ih hmem _

/-- A node over some children is higher than each of them. -/
theorem height_lt_heightOver {net : Network} {id : NodeId} {node : Node}
    (hnode : net.node? id = some node) {children : List NodeId} (hmem : id ∈ children) :
    node.height < net.heightOver children :=
  height_lt_foldl_raise hnode hmem 0

/-- The height over some children depends on their heights only. -/
theorem heightOver_congr {before after : Network} {children : List NodeId}
    (h : ∀ c ∈ children, (after.node? c).map Node.height = (before.node? c).map Node.height) :
    after.heightOver children = before.heightOver children := by
  have hraise : ∀ height, ∀ c ∈ children, after.raise height c = before.raise height c := by
    intro height c hc
    have hheight := h c hc
    unfold raise
    cases hafter : after.node? c <;> cases hbefore : before.node? c <;> simp_all
  have hfold : ∀ height,
      children.foldl after.raise height = children.foldl before.raise height := by
    clear h
    induction children with
    | nil => intro height; rfl
    | cons c rest ih =>
      intro height
      rw [List.foldl_cons, List.foldl_cons, hraise height c List.mem_cons_self]
      exact ih (fun height c hc => hraise height c (List.mem_cons_of_mem _ hc)) _
  exact hfold 0

namespace Sound

variable {net : Network}

/-! ## New nodes -/

theorem nextId_lt (h : net.Sound) : net.nextId.index < net.allocate.1.slots.size := by
  rw [size_slots_allocate]
  unfold nextId allocate
  cases hfree : net.free with
  | nil => simp
  | cons id rest =>
    have hmem : id ∈ net.free := by simp [hfree]
    simpa using ((h.mem_free_iff id).1 hmem).1

theorem node?_nextId (h : net.Sound) : net.node? net.nextId = none := by
  unfold nextId allocate
  cases hfree : net.free with
  | nil => exact node?_eq_none_of_size_le (Nat.le_refl _)
  | cons id rest =>
    have hmem : id ∈ net.free := by simp [hfree]
    exact ((h.mem_free_iff id).1 hmem).2

theorem node?_create (h : net.Sound) (key : NodeKey) (j : NodeId) :
    (net.create key).1.node? j =
      if j = net.nextId then some (net.newNode key)
      else (net.node? j).map (net.besideNew key j) :=
  Network.node?_create h.nextId_lt j

theorem node?_create_nextId (h : net.Sound) (key : NodeKey) :
    (net.create key).1.node? net.nextId = some (net.newNode key) := by
  rw [h.node?_create, if_pos rfl]

/-- What a node is after another one has been created. -/
theorem node?_create_of_node? (h : net.Sound) (key : NodeKey) {id : NodeId} {node : Node}
    (hnode : net.node? id = some node) :
    (net.create key).1.node? id = some (net.besideNew key id node) := by
  have hne : id ≠ net.nextId := Live.ne ⟨node, hnode⟩ h.node?_nextId
  rw [h.node?_create, if_neg hne, hnode, Option.map_some]

/-- A node is the new one, or it was there before. -/
theorem node?_create_cases (h : net.Sound) {key : NodeKey} {id : NodeId} {node : Node}
    (hnode : (net.create key).1.node? id = some node) :
    (id = net.nextId ∧ node = net.newNode key) ∨
      ∃ old, net.node? id = some old ∧ node = net.besideNew key id old := by
  rw [h.node?_create] at hnode
  by_cases hid : id = net.nextId
  · left
    rw [if_pos hid] at hnode
    exact ⟨hid, (Option.some.inj hnode).symm⟩
  · right
    rw [if_neg hid, Option.map_eq_some_iff] at hnode
    obtain ⟨old, hold, rfl⟩ := hnode
    exact ⟨old, hold, rfl⟩

theorem keeps_create (h : net.Sound) (key : NodeKey) : net.Keeps (net.create key).1 := by
  intro id node hnode
  rw [h.node?_create_of_node? key hnode, Option.map_some, bare_besideNew]

theorem mem_free_create_iff (h : net.Sound) (key : NodeKey) (id : NodeId) :
    id ∈ (net.create key).1.free ↔
      id.index < (net.create key).1.slots.size ∧ (net.create key).1.node? id = none := by
  have hnone : (net.create key).1.node? id = none ↔ id ≠ net.nextId ∧ net.node? id = none := by
    rw [h.node?_create]
    by_cases hid : id = net.nextId <;> simp [hid]
  have htail : (net.create key).1.free = net.free.tail := by rw [create_frame]
  rw [hnone, size_slots_create, size_slots_allocate, htail]
  have hiff := h.mem_free_iff id
  have hnodup := h.free_nodup
  unfold nextId allocate
  cases hfree : net.free with
  | nil =>
    rw [hfree] at hiff
    simp only [List.tail_nil, List.not_mem_nil, false_iff, ne_eq, if_true, NodeId.ext_iff] at hiff ⊢
    intro hgap
    rcases hgap with ⟨hlt, hne, hid⟩
    exact hiff ⟨by omega, hid⟩
  | cons next rest =>
    rw [hfree] at hiff hnodup
    have hnext : next ∉ rest := (List.nodup_cons.1 hnodup).1
    simp only [List.mem_cons, List.tail_cons] at hiff ⊢
    constructor
    · intro hmem
      have hne : id ≠ next := fun heq => hnext (heq ▸ hmem)
      exact ⟨(hiff.1 (Or.inr hmem)).1, hne, (hiff.1 (Or.inr hmem)).2⟩
    · intro hgap
      rcases hgap with ⟨hlt, hne, hid⟩
      exact (hiff.2 ⟨hlt, hid⟩).resolve_left hne

/-- After a node has been created, a place has a key of some kind if it is the new one and the new
key is of that kind, or if it had such a key before. -/
theorem exists_node?_create_iff (h : net.Sound) (key : NodeKey) (q : NodeKey → Prop) (id : NodeId) :
    (∃ node, (net.create key).1.node? id = some node ∧ q node.key) ↔
      (id = net.nextId ∧ q key) ∨ ∃ node, net.node? id = some node ∧ q node.key := by
  constructor
  · intro hafter
    rcases hafter with ⟨node, hnode, hq⟩
    rcases h.node?_create_cases hnode with ⟨hid, rfl⟩ | ⟨old, hold, rfl⟩
    · exact Or.inl ⟨hid, hq⟩
    · rw [besideNew_key] at hq
      exact Or.inr ⟨old, hold, hq⟩
  · intro hbefore
    rcases hbefore with ⟨rfl, hq⟩ | ⟨old, hold, hq⟩
    · exact ⟨_, h.node?_create_nextId key, hq⟩
    · refine ⟨_, h.node?_create_of_node? key hold, ?_⟩
      rwa [besideNew_key]

theorem interned_create_iff (h : net.Sound) {key : NodeKey} (hnew : net.find? key = none)
    (k : NodeKey) (id : NodeId) :
    (net.create key).1.interned[k]? = some id ↔
      ∃ node, (net.create key).1.node? id = some node ∧ node.key = k := by
  have hinterned : (net.create key).1.interned = net.interned.insert key net.nextId := by
    rw [create_frame]
  rw [h.exists_node?_create_iff key fun key' => key' = k, hinterned, Std.HashMap.getElem?_insert]
  by_cases hk : key = k
  · have hnone : ¬ ∃ node, net.node? id = some node ∧ node.key = k := by
      intro hthere
      rcases hthere with ⟨old, hold, hkey⟩
      exact h.find?_eq_none_iff.1 hnew id old hold (hkey.trans hk.symm)
    rw [or_iff_left hnone]
    simp [hk, eq_comm]
  · simp [hk, h.interned_iff]

/-- The leaf that follows a fact after a node has been created: the new node if it follows the
fact, and otherwise the old one. -/
theorem leaves_create_iff (h : net.Sound) {key : NodeKey} (hkey : key.WellFormed)
    (hnew : net.find? key = none) (fact : FactKey) (id : NodeId) :
    (net.create key).1.leaves[fact]? = some id ↔
      ∃ node, (net.create key).1.node? id = some node ∧ node.key.op = .fact fact := by
  have hleaves : (net.create key).1.leaves = enterLeaf net.leaves key.op net.nextId := by
    rw [create_frame]
  rw [h.exists_node?_create_iff key fun k => k.op = .fact fact, hleaves]
  by_cases hop : key.op = .fact fact
  · have hself : (enterLeaf net.leaves key.op net.nextId)[fact]? = some net.nextId := by
      simp [hop, enterLeaf, Operator.fact?]
    have hnone : ¬ ∃ node, net.node? id = some node ∧ node.key.op = .fact fact := by
      intro hthere
      rcases hthere with ⟨old, hold, holdOp⟩
      have hsame : old.key = key := by
        rw [h.key_eq_leaf hold holdOp, hkey.eq_leaf hop]
      exact h.find?_eq_none_iff.1 hnew id old hold hsame
    rw [or_iff_left hnone, hself, Option.some.injEq]
    simp [hop, eq_comm]
  · have hother : (enterLeaf net.leaves key.op net.nextId)[fact]? = net.leaves[fact]? := by
      unfold enterLeaf
      cases hfact : key.op with
      | fact other =>
        have hne : other ≠ fact := fun heq => hop (by rw [hfact, heq])
        simp [Operator.fact?, Std.TreeMap.getElem?_insert, hne]
      | _ => rfl
    simp [hother, hop, h.leaves_iff]

/-- A sound network stays sound when a node is created. -/
theorem create (h : net.Sound) {key : NodeKey} (hkey : key.WellFormed)
    (hnew : net.find? key = none) : (net.create key).1.Sound where
  free_nodup := by
    rw [create_frame]
    exact h.free_nodup.tail
  mem_free_iff := h.mem_free_create_iff key
  interned_iff := h.interned_create_iff hnew
  leaves_iff := h.leaves_create_iff hkey hnew
  dirty := by
    rw [create_frame]
    intro due hdue
    obtain ⟨node, hnode, hheight⟩ := h.dirty due hdue
    rw [← create_frame]
    exact ⟨_, h.node?_create_of_node? key hnode, by rw [besideNew_height, hheight]⟩
  parents := by
    intro id node parent hnode hparent
    rcases h.node?_create_cases hnode with ⟨rfl, rfl⟩ | ⟨old, hold, rfl⟩
    · simp [newNode] at hparent
    · rw [besideNew_height]
      rcases mem_parents_besideNew_iff.1 hparent with hparent | ⟨rfl, hchild⟩
      · obtain ⟨above, habove, hmem, hlt⟩ := h.parents hold hparent
        refine ⟨_, h.node?_create_of_node? key habove, ?_, ?_⟩
        · rwa [besideNew_key]
        · rwa [besideNew_height]
      · exact ⟨_, h.node?_create_nextId key, hchild, height_lt_heightOver hold hchild⟩
  keys := by
    intro id node hnode
    rcases h.node?_create_cases hnode with ⟨-, rfl⟩ | ⟨old, hold, rfl⟩
    · exact hkey
    · rw [besideNew_key]
      exact h.keys hold

theorem intern (h : net.Sound) {key : NodeKey} (hkey : key.WellFormed) :
    (net.intern key).1.Sound := by
  cases hfind : net.find? key with
  | some id =>
    refine h.sameGraph_of_dirty (sameGraph_intern hfind) fun due hdue => ?_
    rwa [intern_of_find? hfind] at hdue
  | none =>
    rw [intern_of_none hfind]
    exact h.create hkey hfind

/-! ## Discarded nodes -/

/-- What a node is after another one has been discarded. -/
theorem node?_discard_of_node? {id j : NodeId} {gone node : Node} (hne : j ≠ id)
    (hnode : net.node? j = some node) :
    (net.discard id gone).node? j = some (besideGap id gone.key j node) := by
  rw [node?_discard, if_neg hne, hnode, Option.map_some]

/-- A node that is left was there before. -/
theorem node?_discard_cases {id j : NodeId} {gone node : Node}
    (hnode : (net.discard id gone).node? j = some node) :
    j ≠ id ∧ ∃ old, net.node? j = some old ∧ node = besideGap id gone.key j old := by
  rw [node?_discard] at hnode
  by_cases hj : j = id
  · simp [hj] at hnode
  · rw [if_neg hj, Option.map_eq_some_iff] at hnode
    obtain ⟨old, hold, rfl⟩ := hnode
    exact ⟨hj, old, hold, rfl⟩

/-- What is left after a discarded node was there before. -/
theorem keeps_discard (net : Network) (id : NodeId) (gone : Node) :
    (net.discard id gone).Keeps net := by
  intro j node hnode
  obtain ⟨-, old, hold, rfl⟩ := node?_discard_cases hnode
  rw [hold, Option.map_some, bare_besideGap]

theorem mem_free_discard_iff (h : net.Sound) {id : NodeId} {gone : Node}
    (hgone : net.node? id = some gone) (j : NodeId) :
    j ∈ (net.discard id gone).free ↔
      j.index < (net.discard id gone).slots.size ∧ (net.discard id gone).node? j = none := by
  have hfree : (net.discard id gone).free = id :: net.free := by rw [discard_frame]
  rw [hfree, size_slots_discard, node?_discard, List.mem_cons, h.mem_free_iff]
  by_cases hj : j = id
  · subst hj
    simpa using lt_size_of_node? hgone
  · simp [hj]

/-- After a node has been discarded, the other places have the keys that they had before. -/
theorem exists_node?_discard_iff (id : NodeId) (gone : Node) (q : NodeKey → Prop) (j : NodeId) :
    (∃ node, (net.discard id gone).node? j = some node ∧ q node.key) ↔
      j ≠ id ∧ ∃ node, net.node? j = some node ∧ q node.key := by
  constructor
  · intro hafter
    rcases hafter with ⟨node, hnode, hq⟩
    rcases node?_discard_cases hnode with ⟨hne, old, hold, rfl⟩
    rw [besideGap_key] at hq
    exact ⟨hne, old, hold, hq⟩
  · intro hbefore
    rcases hbefore with ⟨hne, old, hold, hq⟩
    refine ⟨_, node?_discard_of_node? hne hold, ?_⟩
    rwa [besideGap_key]

theorem interned_discard_iff (h : net.Sound) {id : NodeId} {gone : Node}
    (hgone : net.node? id = some gone) (k : NodeKey) (j : NodeId) :
    (net.discard id gone).interned[k]? = some j ↔
      ∃ node, (net.discard id gone).node? j = some node ∧ node.key = k := by
  have hinterned : (net.discard id gone).interned = net.interned.erase gone.key := by
    rw [discard_frame]
  rw [exists_node?_discard_iff id gone fun key => key = k, hinterned, Std.HashMap.getElem?_erase]
  by_cases hk : gone.key = k
  · have hnone : ¬ (j ≠ id ∧ ∃ node, net.node? j = some node ∧ node.key = k) := by
      intro hthere
      rcases hthere with ⟨hne, old, hold, hkey⟩
      exact hne (h.eq_of_key hold hgone (hkey.trans hk.symm))
    simp only [hk, hnone, beq_self_eq_true, if_true, reduceCtorEq]
  · have hne : (∃ node, net.node? j = some node ∧ node.key = k) → j ≠ id := by
      intro hthere heq
      rcases hthere with ⟨old, hold, hkey⟩
      rw [heq, hgone, Option.some.injEq] at hold
      exact hk (hold ▸ hkey)
    rw [if_neg (by simpa using hk), h.interned_iff, and_iff_right_of_imp hne]

theorem leaves_discard_iff (h : net.Sound) {id : NodeId} {gone : Node}
    (hgone : net.node? id = some gone) (fact : FactKey) (j : NodeId) :
    (net.discard id gone).leaves[fact]? = some j ↔
      ∃ node, (net.discard id gone).node? j = some node ∧ node.key.op = .fact fact := by
  have hleaves : (net.discard id gone).leaves = leaveLeaf net.leaves gone.key.op := by
    rw [discard_frame]
  rw [exists_node?_discard_iff id gone fun key => key.op = .fact fact, hleaves]
  by_cases hop : gone.key.op = .fact fact
  · have hself : (leaveLeaf net.leaves gone.key.op)[fact]? = none := by
      simp [hop, leaveLeaf, Operator.fact?]
    have hnone : ¬ (j ≠ id ∧ ∃ node, net.node? j = some node ∧ node.key.op = .fact fact) := by
      intro hthere
      rcases hthere with ⟨hne, old, hold, holdOp⟩
      exact hne (h.eq_of_fact hold hgone holdOp hop)
    simp only [hself, hnone, reduceCtorEq]
  · have hother : (leaveLeaf net.leaves gone.key.op)[fact]? = net.leaves[fact]? := by
      unfold leaveLeaf
      cases hfact : gone.key.op with
      | fact other =>
        have hne : other ≠ fact := fun heq => hop (by rw [hfact, heq])
        simp [Operator.fact?, Std.TreeMap.getElem?_erase, hne]
      | _ => rfl
    have hne : (∃ node, net.node? j = some node ∧ node.key.op = .fact fact) → j ≠ id := by
      intro hthere heq
      rcases hthere with ⟨old, hold, holdOp⟩
      rw [heq, hgone, Option.some.injEq] at hold
      exact hop (hold ▸ holdOp)
    rw [hother, h.leaves_iff, and_iff_right_of_imp hne]

theorem mem_dirty_discard_iff {id : NodeId} {gone : Node} {due : Pending} :
    due ∈ (net.discard id gone).dirty ↔ due ∈ net.dirty ∧ due ≠ ⟨gone.height, id⟩ := by
  have hdirty : (net.discard id gone).dirty = net.dirty.erase ⟨gone.height, id⟩ := by
    rw [discard_frame]
  rw [hdirty, Std.TreeSet.mem_erase, Ne, Std.LawfulEqOrd.compare_eq_iff_eq, and_comm, eq_comm]

/-- A sound network stays sound when a node is discarded, also one that others still name. -/
theorem discard (h : net.Sound) {id : NodeId} {gone : Node} (hgone : net.node? id = some gone) :
    (net.discard id gone).Sound where
  free_nodup := by
    have hnot : id ∉ net.free := by
      rw [h.mem_free_iff, hgone]
      simp
    rw [discard_frame]
    exact List.nodup_cons.2 ⟨hnot, h.free_nodup⟩
  mem_free_iff := h.mem_free_discard_iff hgone
  interned_iff := h.interned_discard_iff hgone
  leaves_iff := h.leaves_discard_iff hgone
  dirty := by
    intro due hdue
    obtain ⟨hmem, hne⟩ := mem_dirty_discard_iff.1 hdue
    obtain ⟨node, hnode, hheight⟩ := h.dirty due hmem
    have hid : due.id ≠ id := by
      rintro rfl
      obtain rfl : gone = node := Option.some.inj (hgone.symm.trans hnode)
      exact hne (by cases due; simp_all)
    exact ⟨_, node?_discard_of_node? hid hnode, by rw [besideGap_height, hheight]⟩
  parents := by
    intro j node parent hnode hparent
    obtain ⟨-, old, hold, rfl⟩ := node?_discard_cases hnode
    obtain ⟨hparent, hnot⟩ := mem_parents_besideGap_iff.1 hparent
    obtain ⟨above, habove, hmem, hlt⟩ := h.parents hold hparent
    -- the discarded node names all nodes that have it as a parent
    have hne : parent ≠ id := by
      rintro rfl
      obtain rfl : gone = above := Option.some.inj (hgone.symm.trans habove)
      exact hnot ⟨rfl, hmem⟩
    refine ⟨_, node?_discard_of_node? hne habove, ?_, ?_⟩
    · rwa [besideGap_key]
    · rwa [besideGap_height, besideGap_height]
  keys := by
    intro j node hnode
    obtain ⟨-, old, hold, rfl⟩ := node?_discard_cases hnode
    rw [besideGap_key]
    exact h.keys hold

end Sound
end Network
end Mandate
