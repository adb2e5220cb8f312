import Mandate.Network.Propagation
import Mandate.Proofs.Network.Unfolding

/-!
# Supplying inputs

A new input for a fact reaches the one leaf that follows it, if there is one.  The leaf becomes
pending if the input has changed; everything else stays as it is.

Main results:

- Theorem `mem_dirty_foldl_mark_iff`: marking nodes makes them pending.
- Theorem `Sound.node?_setFact`: the nodes after a new input.
- Theorem `Sound.setFact_changed_iff`: the input of a fact has changed.
- Theorems `Owned.setFact`, `Owned.consistent_setFact`: a new input keeps references and values
  right.
-/

namespace Mandate
namespace Network

/-! ## Marking nodes -/

theorem mark_frame (net : Network) (id : NodeId) :
    net.mark id = { net with dirty := (net.mark id).dirty } := by
  unfold mark
  cases net.node? id <;> rfl

/-- Marking nodes changes nothing but what is pending. -/
theorem foldl_mark_frame (ids : List NodeId) (net : Network) :
    ids.foldl mark net = { net with dirty := (ids.foldl mark net).dirty } := by
  induction ids generalizing net with
  | nil => rfl
  | cons id ids ih =>
    rw [List.foldl_cons, ih, mark_frame]

theorem node?_mark (net : Network) (id j : NodeId) : (net.mark id).node? j = net.node? j := by
  rw [mark_frame]
  rfl

theorem node?_foldl_mark (ids : List NodeId) (net : Network) (j : NodeId) :
    (ids.foldl mark net).node? j = net.node? j := by
  rw [foldl_mark_frame]
  rfl

/-- The entry of a node among the pending ones. -/
def Due (net : Network) (due : Pending) : Prop :=
  ∃ node, net.node? due.id = some node ∧ node.height = due.height

theorem mem_dirty_mark_iff {net : Network} {id : NodeId} {due : Pending} :
    due ∈ (net.mark id).dirty ↔ due ∈ net.dirty ∨ (due.id = id ∧ net.Due due) := by
  unfold mark Due
  cases hnode : net.node? id with
  | none =>
    simp only [iff_self_or, and_imp]
    rintro rfl ⟨node, hlive, -⟩
    rw [hnode] at hlive
    cases hlive
  | some node =>
    rw [Std.TreeSet.mem_insert, Std.LawfulEqCmp.compare_eq_iff_eq]
    constructor
    · intro hmem
      rcases hmem with rfl | hmem
      · exact Or.inr ⟨rfl, node, hnode, rfl⟩
      · exact Or.inl hmem
    · intro hmem
      rcases hmem with hmem | ⟨rfl, other, hother, hheight⟩
      · exact Or.inr hmem
      · have hsame : node = other := Option.some.inj (hnode.symm.trans hother)
        left
        rw [hsame, hheight]

/-- Marking nodes makes them pending and no others. -/
theorem mem_dirty_foldl_mark_iff {net : Network} {ids : List NodeId} {due : Pending} :
    due ∈ (ids.foldl mark net).dirty ↔ due ∈ net.dirty ∨ (due.id ∈ ids ∧ net.Due due) := by
  induction ids generalizing net with
  | nil => simp
  | cons id ids ih =>
    have hdue : (net.mark id).Due due ↔ net.Due due := by
      simp only [Due, node?_mark]
    rw [List.foldl_cons, ih, mem_dirty_mark_iff, hdue, List.mem_cons]
    constructor
    · intro hmem
      rcases hmem with (hmem | ⟨heq, hlive⟩) | ⟨hrest, hlive⟩
      · exact Or.inl hmem
      · exact Or.inr ⟨Or.inl heq, hlive⟩
      · exact Or.inr ⟨Or.inr hrest, hlive⟩
    · intro hmem
      rcases hmem with hmem | ⟨heq | hrest, hlive⟩
      · exact Or.inl (Or.inl hmem)
      · exact Or.inl (Or.inr ⟨heq, hlive⟩)
      · exact Or.inr ⟨hrest, hlive⟩

/-! ## New inputs -/

end Network

/-- The node after a new input for a fact; only the leaf of the fact takes it. -/
def Node.supplied (key : FactKey) (input : Option FactValue) (epoch : Nat) (node : Node) : Node :=
  if node.key.op = .fact key then { node with input, inputEpoch := epoch } else node

namespace Node

variable {key : FactKey} {input : Option FactValue} {epoch : Nat} {node : Node}

theorem supplied_of_eq (h : node.key.op = .fact key) :
    node.supplied key input epoch = { node with input, inputEpoch := epoch } :=
  if_pos h

theorem supplied_of_ne (h : node.key.op ≠ .fact key) : node.supplied key input epoch = node :=
  if_neg h

@[simp]
theorem supplied_links : (node.supplied key input epoch).links = node.links := by
  unfold supplied
  split <;> rfl

@[simp]
theorem supplied_key : (node.supplied key input epoch).key = node.key := by
  unfold supplied
  split <;> rfl

@[simp]
theorem supplied_height : (node.supplied key input epoch).height = node.height := by
  unfold supplied
  split <;> rfl

@[simp]
theorem supplied_value : (node.supplied key input epoch).value = node.value := by
  unfold supplied
  split <;> rfl

@[simp]
theorem supplied_refcount : (node.supplied key input epoch).refcount = node.refcount := by
  unfold supplied
  split <;> rfl

end Node

namespace Network

variable {net : Network} {held : List NodeId} {key : FactKey} {input : Option FactValue}

/-- An input for a fact that nobody follows is lost. -/
theorem setFact_of_not_subscribed (h : ¬ net.isSubscribed key = true) :
    net.setFact key input = (net, false) := by
  have hnone : net.leaves[key]? = none := by
    refine Std.TreeMap.getElem?_eq_none ?_
    rw [Std.TreeMap.mem_iff_contains]
    exact h
  simp [setFact, hnone]

/-- An input that reaches a leaf is noted there, and makes the leaf pending if it is another one. -/
theorem Sound.setFact_of_leaf (h : net.Sound) {id : NodeId} {node : Node}
    (hnode : net.node? id = some node) (hop : node.key.op = .fact key) :
    net.setFact key input =
      ({ net with
          slots := (net.modify id fun node =>
            { node with input, inputEpoch := net.epoch + 1 }).slots
          dirty := if node.input = input then net.dirty
            else net.dirty.insert ⟨node.height, id⟩
          epoch := net.epoch + 1 },
        decide (node.input ≠ input)) := by
  have hleaf : net.leaves[key]? = some id := (h.leaves_iff key id).2 ⟨node, hnode, hop⟩
  have hthere : ({ net with epoch := net.epoch + 1 } : Network).node? id = some node := hnode
  simp only [Network.setFact, hleaf, hthere]
  by_cases hsame : node.input = input
  · simp [hsame, modify]
  · have hlater : ({ net with epoch := net.epoch + 1 }.modify id fun node =>
        { node with input, inputEpoch := net.epoch + 1 }).node? id =
          some { node with input, inputEpoch := net.epoch + 1 } := by
      rw [node?_modify, if_pos rfl, hthere, Option.map_some]
    simp only [hsame, if_false, mark, hlater]
    simp [modify, hsame]

namespace Sound

/-- The nodes after a new input. -/
theorem node?_setFact (h : net.Sound) (j : NodeId) :
    (net.setFact key input).1.node? j =
      (net.node? j).map (Node.supplied key input (net.epoch + 1)) := by
  by_cases hsub : net.isSubscribed key = true
  · rcases (h.isSubscribed_iff key).1 hsub with ⟨id, node, hnode, hop⟩
    have hmodify : (net.setFact key input).1.node? j =
        if j = id then (net.node? j).map fun node =>
          { node with input, inputEpoch := net.epoch + 1 }
        else net.node? j := by
      rw [h.setFact_of_leaf hnode hop]
      exact node?_modify net id j _
    rw [hmodify]
    by_cases hj : j = id
    · rw [if_pos hj, hj, hnode, Option.map_some, Option.map_some, Node.supplied_of_eq hop]
    · rw [if_neg hj]
      cases hother : net.node? j with
      | none => rfl
      | some other =>
        have hne : other.key.op ≠ .fact key := fun hotherOp =>
          hj (h.eq_of_fact hother hnode hotherOp hop)
        rw [Option.map_some, Node.supplied_of_ne hne]
  · rw [setFact_of_not_subscribed hsub]
    cases hother : net.node? j with
    | none => rfl
    | some other =>
      have hne : other.key.op ≠ .fact key := fun hop =>
        hsub ((h.isSubscribed_iff key).2 ⟨j, other, hother, hop⟩)
      rw [Option.map_some, Node.supplied_of_ne hne]

theorem epoch_setFact (h : net.Sound) :
    (net.setFact key input).1.epoch =
      if net.isSubscribed key = true then net.epoch + 1 else net.epoch := by
  by_cases hsub : net.isSubscribed key = true
  · rcases (h.isSubscribed_iff key).1 hsub with ⟨id, node, hnode, hop⟩
    rw [if_pos hsub, h.setFact_of_leaf hnode hop]
  · rw [if_neg hsub, setFact_of_not_subscribed hsub]

/-- A new input keeps the graph. -/
theorem sameGraph_setFact (h : net.Sound) : net.SameGraph (net.setFact key input).1 := by
  have hlinks : ∀ id, ((net.setFact key input).1.node? id).map Node.links =
      (net.node? id).map Node.links := by
    intro id
    rw [h.node?_setFact]
    cases net.node? id <;> simp
  by_cases hsub : net.isSubscribed key = true
  · rcases (h.isSubscribed_iff key).1 hsub with ⟨id, node, hnode, hop⟩
    rw [h.setFact_of_leaf hnode hop] at hlinks ⊢
    exact ⟨size_slots_modify _ _ _, rfl, rfl, rfl, rfl, hlinks⟩
  · rw [setFact_of_not_subscribed hsub]
    exact SameGraph.refl net

theorem value_setFact (h : net.Sound) (id : NodeId) :
    (net.setFact key input).1.value id = net.value id := by
  unfold Network.value
  rw [h.node?_setFact]
  cases net.node? id <;> simp

/-- The leaves after a new input. -/
theorem leaf?_setFact (h : net.Sound) (fact : FactKey) :
    (net.setFact key input).1.leaf? fact =
      (net.leaf? fact).map (Node.supplied key input (net.epoch + 1)) := by
  have hleaves : (net.setFact key input).1.leaves = net.leaves := h.sameGraph_setFact.leaves
  unfold leaf?
  rw [hleaves]
  cases net.leaves[fact]? with
  | none => rfl
  | some id => exact h.node?_setFact id

/-- The leaf of the fact takes the input and the time, and no other leaf does. -/
theorem leaf?_setFact_cases (h : net.Sound) (input : Option FactValue) (fact : FactKey) :
    (fact = key ∧ net.isSubscribed key = true ∧ ∃ node : Node, (net.setFact key input).1.leaf? fact =
        some { node with input, inputEpoch := net.epoch + 1 }) ∨
      (¬ (fact = key ∧ net.isSubscribed key = true) ∧
        (net.setFact key input).1.leaf? fact = net.leaf? fact) := by
  rw [h.leaf?_setFact]
  cases hfound : net.leaf? fact with
  | none =>
    right
    refine ⟨?_, rfl⟩
    rintro ⟨rfl, hsub⟩
    rcases (h.isSubscribed_iff fact).1 hsub with ⟨id, node, hnode, hop⟩
    rw [h.leaf?_eq_some_iff.2 ⟨id, hnode, hop⟩] at hfound
    cases hfound
  | some node =>
    rcases h.leaf?_eq_some_iff.1 hfound with ⟨id, hnode, hop⟩
    by_cases hfact : fact = key
    · left
      have hsub : net.isSubscribed key = true :=
        (h.isSubscribed_iff key).2 ⟨id, node, hnode, hfact ▸ hop⟩
      rw [Option.map_some, Node.supplied_of_eq (hfact ▸ hop)]
      exact ⟨hfact, hsub, node, rfl⟩
    · right
      have hne : node.key.op ≠ .fact key := by
        rw [hop]
        simpa using hfact
      rw [Option.map_some, Node.supplied_of_ne hne]
      exact ⟨fun hboth => hfact hboth.1, rfl⟩

/-- The inputs after a new one. -/
theorem input_setFact (h : net.Sound) (fact : FactKey) :
    (net.setFact key input).1.input fact =
      if fact = key ∧ net.isSubscribed key = true then input else net.input fact := by
  unfold Network.input
  rcases h.leaf?_setFact_cases input fact with ⟨hfact, hsub, node, hleaf⟩ | ⟨hnot, hleaf⟩
  · rw [hleaf, if_pos ⟨hfact, hsub⟩]
    rfl
  · rw [hleaf, if_neg hnot]

/-- The times of inputs after a new one. -/
theorem inputEpoch?_setFact (h : net.Sound) (fact : FactKey) :
    (net.setFact key input).1.inputEpoch? fact =
      if fact = key ∧ net.isSubscribed key = true then some (net.epoch + 1)
      else net.inputEpoch? fact := by
  unfold Network.inputEpoch?
  rcases h.leaf?_setFact_cases input fact with ⟨hfact, hsub, node, hleaf⟩ | ⟨hnot, hleaf⟩
  · rw [hleaf, if_pos ⟨hfact, hsub⟩]
    rfl
  · rw [hleaf, if_neg hnot]

/-- An input has changed if some leaf follows its fact and has had another one. -/
theorem setFact_changed_iff (h : net.Sound) :
    (net.setFact key input).2 = true ↔ net.isSubscribed key = true ∧ net.input key ≠ input := by
  by_cases hsub : net.isSubscribed key = true
  · rcases (h.isSubscribed_iff key).1 hsub with ⟨id, node, hnode, hop⟩
    rw [h.setFact_of_leaf hnode hop, h.input_of_node? hnode hop]
    by_cases hsame : node.input = input <;> simp [hsame, hsub]
  · simp [setFact_of_not_subscribed hsub, hsub]

/-- A leaf whose input has changed becomes pending, and no other node does. -/
theorem mem_dirty_setFact_iff (h : net.Sound) {due : Pending} :
    due ∈ (net.setFact key input).1.dirty ↔ due ∈ net.dirty ∨
      ∃ node, net.node? due.id = some node ∧ node.height = due.height ∧
        node.key.op = .fact key ∧ node.input ≠ input := by
  by_cases hsub : net.isSubscribed key = true
  · rcases (h.isSubscribed_iff key).1 hsub with ⟨id, leaf, hleaf, hop⟩
    rw [h.setFact_of_leaf hleaf hop]
    -- the leaf is the only node with the fact
    have honly : (∃ node, net.node? due.id = some node ∧ node.height = due.height ∧
        node.key.op = .fact key ∧ node.input ≠ input) ↔
          due = ⟨leaf.height, id⟩ ∧ leaf.input ≠ input := by
      constructor
      · intro hparent
        rcases hparent with ⟨node, hnode, hheight, hnodeOp, hne⟩
        have hid : due.id = id := h.eq_of_fact hnode hleaf hnodeOp hop
        have hsame : node = leaf := Option.some.inj (hnode.symm.trans (hid ▸ hleaf))
        rw [← hsame, hheight, ← hid]
        exact ⟨rfl, hne⟩
      · rintro ⟨rfl, hne⟩
        exact ⟨leaf, hleaf, rfl, hop, hne⟩
    rw [honly]
    by_cases hsame : leaf.input = input
    · simp [hsame]
    · simp only [hsame, if_false, Std.TreeSet.mem_insert, Std.LawfulEqCmp.compare_eq_iff_eq]
      rw [eq_comm, or_comm]
      simp [hsame]
  · rw [setFact_of_not_subscribed hsub]
    refine (or_iff_left ?_).symm
    intro hparent
    rcases hparent with ⟨node, hnode, -, hop, -⟩
    exact hsub ((h.isSubscribed_iff key).2 ⟨_, node, hnode, hop⟩)

/-- What is pending after a new input is there. -/
theorem due_setFact (h : net.Sound) {due : Pending}
    (hdue : due ∈ (net.setFact key input).1.dirty) : (net.setFact key input).1.Due due := by
  have hthere : net.Due due := by
    rcases h.mem_dirty_setFact_iff.1 hdue with hold | ⟨node, hnode, hheight, -⟩
    · exact h.dirty due hold
    · exact ⟨node, hnode, hheight⟩
  rcases hthere with ⟨node, hnode, hheight⟩
  refine ⟨node.supplied key input (net.epoch + 1), ?_, ?_⟩
  · rw [h.node?_setFact, hnode, Option.map_some]
  · rw [Node.supplied_height, hheight]

theorem setFact (h : net.Sound) : (net.setFact key input).1.Sound :=
  h.sameGraph h.sameGraph_setFact fun _ => h.due_setFact

theorem refcount_setFact (h : net.Sound) (id : NodeId) :
    (net.setFact key input).1.refcount id = net.refcount id := by
  unfold Network.refcount
  rw [h.node?_setFact]
  cases net.node? id <;> simp

end Sound

namespace Owned

/-- A new input keeps the references in order. -/
theorem setFact (h : net.Owned held) : (net.setFact key input).1.Owned held :=
  h.sameGraph h.sameGraph_setFact h.refcount_setFact fun _ => h.due_setFact

/-- A new input keeps all values right, except where the leaf is pending. -/
theorem consistent_setFact (h : net.Owned held) (hcons : net.Consistent) :
    (net.setFact key input).1.Consistent := by
  intro id node hnode
  rw [h.node?_setFact, Option.map_eq_some_iff] at hnode
  rcases hnode with ⟨old, hold, rfl⟩
  rw [Node.supplied_key, Node.supplied_value, Node.supplied_height]
  rcases hcons hold with hright | hdirty
  · by_cases hnew : old.key.op = .fact key ∧ old.input ≠ input
    · right
      exact h.mem_dirty_setFact_iff.2 (Or.inr ⟨old, hold, rfl, hnew.1, hnew.2⟩)
    · left
      have hinput : (old.supplied key input (net.epoch + 1)).input = old.input := by
        unfold Node.supplied
        split
        · next hop =>
          by_contra hne
          exact hnew ⟨hop, fun heq => hne heq.symm⟩
        · rfl
      rw [hinput, hright]
      exact (compute_congr old.input fun c _ => h.value_setFact c).symm
  · right
    exact h.mem_dirty_setFact_iff.2 (Or.inl hdirty)

end Owned

end Network
end Mandate
