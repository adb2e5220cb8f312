import Mathlib.Data.List.Count
import Mathlib.Logic.Function.Iterate
import Mandate.Network.Build
import Mandate.Network.Propagation
import Mandate.Network.Release

/-!
# The nodes of a network after each operation

All that is proved about networks goes through one view, the function that gives the node at a
place.  This module says what every operation of the graph does to that view, so that no later
proof looks into the array of places.

Main results:

- Theorem `node?_intern_of_find?`: sharing a node changes references only.
- Theorem `node?_create`: a new node takes an empty place, and its children learn of it.
- Theorem `node?_discard`: a discarded node leaves its place, and its children forget it.
- Definition `Keeps`: a network still has all nodes of another one, with what they hold.
- Definition `SameGraph`: two networks differ in references, values and inputs only.
-/

namespace Mandate

/-- The node without its ties to others: parents and references. -/
def Node.bare (node : Node) : Node :=
  { node with parents := [], refcount := 0 }

/-- Two nodes hold the same, whoever refers to them. -/
structure Node.SameContent (a b : Node) : Prop where
  key : a.key = b.key
  height : a.height = b.height
  value : a.value = b.value
  input : a.input = b.input
  inputEpoch : a.inputEpoch = b.inputEpoch

theorem Node.eq_of_bare {a b : Node} (h : a.bare = b.bare) : a.SameContent b := by
  have hfields := h
  simp only [bare, Node.mk.injEq] at hfields
  obtain ⟨hkey, -, hheight, -, hvalue, hinput, hepoch, -⟩ := hfields
  exact ⟨hkey, hheight, hvalue, hinput, hepoch⟩

/-- What ties a node to others: its key, its height and its parents. -/
def Node.links (node : Node) : NodeKey × Nat × List NodeId :=
  (node.key, node.height, node.parents)

namespace Network

/-- There is a node at the place. -/
def Live (net : Network) (id : NodeId) : Prop :=
  ∃ node, net.node? id = some node

theorem node?_eq_some_iff {net : Network} {id : NodeId} {node : Node} :
    net.node? id = some node ↔ net.slots[id.index]? = some (some node) := by
  simp [node?, Option.join_eq_some_iff]

theorem lt_size_of_node? {net : Network} {id : NodeId} {node : Node}
    (h : net.node? id = some node) : id.index < net.slots.size := by
  have hslot := node?_eq_some_iff.1 h
  exact (Array.getElem?_eq_some_iff.1 hslot).1

theorem node?_eq_none_of_size_le {net : Network} {id : NodeId}
    (h : net.slots.size ≤ id.index) : net.node? id = none := by
  simp [node?, h]

theorem not_live_iff {net : Network} {id : NodeId} : ¬ net.Live id ↔ net.node? id = none := by
  simp [Live, Option.eq_none_iff_forall_ne_some]

theorem Live.ne {net : Network} {i j : NodeId} (hi : net.Live i) (hj : net.node? j = none) :
    i ≠ j := by
  rintro rfl
  exact not_live_iff.2 hj hi

theorem value_of_node? {net : Network} {id : NodeId} {node : Node}
    (h : net.node? id = some node) : net.value id = node.value := by
  simp [value, h]

theorem live_of_value {net : Network} {id : NodeId} {v : Int} (h : net.value id = .num v) :
    net.Live id := by
  by_contra hnot
  rw [value, not_live_iff.1 hnot] at h
  cases h

theorem refcount_of_node? {net : Network} {id : NodeId} {node : Node}
    (h : net.node? id = some node) : net.refcount id = node.refcount := by
  simp [refcount, h]

/-! ## Changes of single nodes -/

@[simp]
theorem node?_modify (net : Network) (id j : NodeId) (f : Node → Node) :
    (net.modify id f).node? j = if j = id then (net.node? j).map f else net.node? j := by
  unfold modify node?
  rw [Array.getElem?_modify]
  by_cases h : j = id
  · subst h
    cases net.slots[j.index]? <;> simp
  · have hindex : id.index ≠ j.index := fun heq => h (NodeId.ext heq.symm)
    simp [h, hindex]

@[simp]
theorem size_slots_modify (net : Network) (id : NodeId) (f : Node → Node) :
    (net.modify id f).slots.size = net.slots.size := by
  simp [modify]

/-- A change that leaves the node as it is, if there is one, changes nothing. -/
theorem modify_eq_self {net : Network} {id : NodeId} {f : Node → Node}
    (h : ∀ node, net.node? id = some node → f node = node) : net.modify id f = net := by
  have hslots : net.slots.modify id.index (Option.map f) = net.slots := by
    refine Array.ext_getElem? fun j => ?_
    rw [Array.getElem?_modify]
    split
    · next hj =>
      subst hj
      simp only [node?] at h
      cases hslot : net.slots[id.index]? with
      | none => rfl
      | some slot =>
        rw [hslot, Option.join_some] at h
        cases slot with
        | none => rfl
        | some node => simp [h node rfl]
    · rfl
  rw [modify, hslots]

/-- Two changes of a node are one. -/
theorem modify_modify (net : Network) (id : NodeId) (f g : Node → Node) :
    (net.modify id f).modify id g = net.modify id fun node => g (f node) := by
  have hslots : (net.slots.modify id.index (Option.map f)).modify id.index (Option.map g) =
      net.slots.modify id.index (Option.map fun node => g (f node)) := by
    refine Array.ext_getElem? fun j => ?_
    simp only [Array.getElem?_modify]
    split
    · rw [Option.map_map, Option.map_comp_map]
      rfl
    · rfl
  rw [modify, modify, modify, hslots]

/-- A change of several nodes touches the places only. -/
theorem foldl_modify_eq (f : Node → Node) (ids : List NodeId) (net : Network) :
    ids.foldl (fun net id => net.modify id f) net =
      { net with slots := (ids.foldl (fun net id => net.modify id f) net).slots } := by
  induction ids generalizing net with
  | nil => rfl
  | cons id ids ih =>
    rw [List.foldl_cons, ih]
    rfl

theorem size_slots_foldl_modify (f : Node → Node) (ids : List NodeId) (net : Network) :
    (ids.foldl (fun net id => net.modify id f) net).slots.size = net.slots.size := by
  induction ids generalizing net with
  | nil => rfl
  | cons id ids ih => rw [List.foldl_cons, ih, size_slots_modify]

/-- A change of several nodes reaches a node as often as its place is named. -/
theorem node?_foldl_modify (f : Node → Node) (ids : List NodeId) (net : Network) (j : NodeId) :
    (ids.foldl (fun net id => net.modify id f) net).node? j =
      (net.node? j).map f^[ids.count j] := by
  induction ids generalizing net with
  | nil => simp
  | cons id ids ih =>
    rw [List.foldl_cons, ih, node?_modify]
    by_cases h : j = id
    · subst h
      cases net.node? j <;> simp
    · have hne : id ≠ j := fun heq => h heq.symm
      simp [h, List.count_cons_of_ne hne]

/-! ## References -/

/-- The node with some references less. -/
def lessReferences (n : Nat) (node : Node) : Node :=
  { node with refcount := node.refcount - n }

theorem iterate_lessReferences (n : Nat) :
    (lessReferences 1)^[n] = lessReferences n := by
  induction n with
  | zero => rfl
  | succ n ih =>
    funext node
    rw [Function.iterate_succ_apply', ih]
    simp only [lessReferences]
    congr 1

theorem node?_foldl_giveBack (ids : List NodeId) (net : Network) (j : NodeId) :
    (ids.foldl giveBack net).node? j = (net.node? j).map (lessReferences (ids.count j)) := by
  rw [← iterate_lessReferences]
  exact node?_foldl_modify _ ids net j

/-- Giving references back touches the places only. -/
theorem foldl_giveBack_eq (ids : List NodeId) (net : Network) :
    ids.foldl giveBack net = { net with slots := (ids.foldl giveBack net).slots } :=
  foldl_modify_eq (lessReferences 1) ids net

/-- The references of a node after its key has been interned again: the children get theirs back,
and the node itself has one more, as far as it can be counted. -/
def shareReferences (net : Network) (key : NodeKey) (id j : NodeId) (node : Node) : Node :=
  { node with
    refcount :=
      if j = id then (node.refcount - key.children.count j + 1) % net.wrapsAt
      else node.refcount - key.children.count j }

theorem node?_intern_of_find? {net : Network} {key : NodeKey} {id : NodeId}
    (h : net.find? key = some id) (j : NodeId) :
    (net.intern key).1.node? j = (net.node? j).map (net.shareReferences key id j) := by
  have hwraps : (key.children.foldl giveBack net).wrapsAt = net.wrapsAt := by
    rw [foldl_giveBack_eq]
  simp only [intern, h, retain, node?_modify, node?_foldl_giveBack, hwraps]
  by_cases hj : j = id
  · cases net.node? j <;> simp [hj, shareReferences, lessReferences]
  · cases net.node? j <;> simp [hj, shareReferences, lessReferences]

/-- Interning a key again changes the places only, and returns the place of its node. -/
theorem intern_of_find? {net : Network} {key : NodeKey} {id : NodeId}
    (h : net.find? key = some id) :
    net.intern key = ({ net with slots := (net.intern key).1.slots }, id) := by
  simp only [intern, h, retain, modify]
  rw [foldl_giveBack_eq]

theorem intern_of_none {net : Network} {key : NodeKey} (h : net.find? key = none) :
    net.intern key = net.create key := by
  simp only [intern, h]

theorem size_slots_intern_of_find? {net : Network} {key : NodeKey} {id : NodeId}
    (h : net.find? key = some id) : (net.intern key).1.slots.size = net.slots.size := by
  simp only [intern, h, retain, size_slots_modify]
  exact size_slots_foldl_modify (lessReferences 1) key.children net

/-! ## New nodes -/

/-- The node that has a new parent. -/
def withParent (parent : NodeId) (node : Node) : Node :=
  { node with parents := if parent ∈ node.parents then node.parents else node.parents ++ [parent] }

theorem iterate_withParent (parent : NodeId) {n : Nat} (h : n ≠ 0) :
    (withParent parent)^[n] = withParent parent := by
  have hidem : ∀ node, withParent parent (withParent parent node) = withParent parent node := by
    intro node
    by_cases hmem : parent ∈ node.parents <;> simp [withParent, hmem]
  funext node
  induction n with
  | zero => exact (h rfl).elim
  | succ n ih =>
    rw [Function.iterate_succ_apply']
    by_cases hn : n = 0
    · simp [hn]
    · rw [ih hn, hidem]

theorem node?_foldl_adopt (parent : NodeId) (ids : List NodeId) (net : Network) (j : NodeId) :
    (ids.foldl (adopt parent) net).node? j =
      (net.node? j).map fun node => if j ∈ ids then withParent parent node else node := by
  have hfold : (ids.foldl (adopt parent) net).node? j =
      (net.node? j).map (withParent parent)^[ids.count j] :=
    node?_foldl_modify (withParent parent) ids net j
  rw [hfold]
  by_cases hj : j ∈ ids
  · have hcount : ids.count j ≠ 0 := fun h => List.count_eq_zero.1 h hj
    rw [iterate_withParent parent hcount]
    simp [hj]
  · rw [List.count_eq_zero.2 hj]
    simp [hj]

/-- The place of the next new node. -/
def nextId (net : Network) : NodeId :=
  net.allocate.2

/-- The new node for a key. -/
def newNode (net : Network) (key : NodeKey) : Node :=
  { key, parents := [], height := net.heightOver key.children, refcount := 1,
    value := net.compute key none, input := none, inputEpoch := net.epoch, evaluations := 1 }

theorem allocate_frame (net : Network) :
    net.allocate.1 =
      { net with slots := net.allocate.1.slots, free := net.free.tail } := by
  unfold allocate
  cases hfree : net.free <;> simp

theorem node?_allocate (net : Network) (j : NodeId) : net.allocate.1.node? j = net.node? j := by
  unfold allocate
  cases net.free with
  | cons id rest => rfl
  | nil =>
    unfold node?
    rw [Array.getElem?_push]
    by_cases h : j.index = net.slots.size
    · simp [h]
    · simp [h]

theorem size_slots_allocate (net : Network) :
    net.allocate.1.slots.size =
      if net.free = [] then net.slots.size + 1 else net.slots.size := by
  unfold allocate
  cases net.free <;> simp

/-- Creating a node touches the places, the free places and the indices only. -/
theorem create_frame (net : Network) (key : NodeKey) :
    (net.create key).1 =
      { net with
        slots := (net.create key).1.slots
        free := net.free.tail
        interned := net.interned.insert key net.nextId
        leaves := enterLeaf net.leaves key.op net.nextId } := by
  have hfold : key.children.foldl (adopt net.nextId) net.allocate.1 =
      { net.allocate.1 with slots := (key.children.foldl (adopt net.nextId) net.allocate.1).slots } :=
    foldl_modify_eq (withParent net.nextId) key.children net.allocate.1
  unfold nextId at hfold
  simp only [create, nextId]
  rw [hfold, allocate_frame net]

theorem size_slots_create (net : Network) (key : NodeKey) :
    (net.create key).1.slots.size = net.allocate.1.slots.size := by
  simp only [create, Array.size_setIfInBounds]
  exact size_slots_foldl_modify (withParent net.nextId) key.children net.allocate.1

theorem create_id (net : Network) (key : NodeKey) : (net.create key).2 = net.nextId := rfl

theorem find?_create_of_ne (net : Network) {key other : NodeKey} (hne : key ≠ other) :
    (net.create key).1.find? other = net.find? other := by
  rw [find?, create_frame, Std.HashMap.getElem?_insert, if_neg (by simpa using hne)]
  rfl

/-- A node at a place after a new node for a key has been created. -/
def besideNew (net : Network) (key : NodeKey) (id : NodeId) (node : Node) : Node :=
  if id ∈ key.children then withParent net.nextId node else node

theorem bare_besideNew (net : Network) (key : NodeKey) (id : NodeId) (node : Node) :
    (net.besideNew key id node).bare = node.bare := by
  unfold besideNew
  split <;> rfl

@[simp]
theorem besideNew_key (net : Network) (key : NodeKey) (id : NodeId) (node : Node) :
    (net.besideNew key id node).key = node.key :=
  (Node.eq_of_bare (net.bare_besideNew key id node)).key

@[simp]
theorem besideNew_height (net : Network) (key : NodeKey) (id : NodeId) (node : Node) :
    (net.besideNew key id node).height = node.height :=
  (Node.eq_of_bare (net.bare_besideNew key id node)).height

@[simp]
theorem besideNew_refcount (net : Network) (key : NodeKey) (id : NodeId) (node : Node) :
    (net.besideNew key id node).refcount = node.refcount := by
  unfold besideNew
  split <;> rfl

theorem mem_parents_besideNew_iff {net : Network} {key : NodeKey} {id p : NodeId} {node : Node} :
    p ∈ (net.besideNew key id node).parents ↔
      p ∈ node.parents ∨ (p = net.nextId ∧ id ∈ key.children) := by
  by_cases hid : id ∈ key.children
  · by_cases hmem : net.nextId ∈ node.parents
    · simp only [besideNew, hid, if_true, withParent, hmem, and_true]
      constructor
      · exact Or.inl
      · intro hmem
        rcases hmem with h | rfl
        · exact h
        · exact hmem
    · simp [besideNew, hid, withParent, hmem]
  · simp [besideNew, hid]

theorem nodup_parents_besideNew {net : Network} {key : NodeKey} {id : NodeId} {node : Node}
    (h : node.parents.Nodup) : (net.besideNew key id node).parents.Nodup := by
  unfold besideNew withParent
  split
  · split
    · exact h
    · next hnot =>
      refine List.nodup_append.2 ⟨h, List.pairwise_singleton _ _, ?_⟩
      rintro p hp q hq rfl
      exact hnot (List.mem_singleton.1 hq ▸ hp)
  · exact h

theorem node?_create {net : Network} {key : NodeKey}
    (hid : net.nextId.index < net.allocate.1.slots.size) (j : NodeId) :
    (net.create key).1.node? j =
      if j = net.nextId then some (net.newNode key)
      else (net.node? j).map (net.besideNew key j) := by
  have hsize : (key.children.foldl (adopt net.nextId) net.allocate.1).slots.size =
      net.allocate.1.slots.size :=
    size_slots_foldl_modify (withParent net.nextId) key.children net.allocate.1
  by_cases hj : j = net.nextId
  · subst hj
    have hlt : net.allocate.2.index <
        (key.children.foldl (adopt net.allocate.2) net.allocate.1).slots.size := by
      exact hsize ▸ hid
    have hepoch : net.allocate.1.epoch = net.epoch := by rw [allocate_frame]
    have hframe : key.children.foldl (adopt net.allocate.2) net.allocate.1 =
        { net.allocate.1 with
          slots := (key.children.foldl (adopt net.allocate.2) net.allocate.1).slots } :=
      foldl_modify_eq (withParent net.allocate.2) key.children net.allocate.1
    have hfold : (key.children.foldl (adopt net.allocate.2) net.allocate.1).epoch = net.epoch := by
      rw [hframe]
      exact hepoch
    simp [create, node?, nextId, newNode, hlt, hfold]
  · have hindex : net.nextId.index ≠ j.index := fun heq => hj (NodeId.ext heq.symm)
    have hold : (key.children.foldl (adopt net.nextId) net.allocate.1).node? j =
        (net.node? j).map (net.besideNew key j) := by
      rw [node?_foldl_adopt, node?_allocate]
      rfl
    rw [if_neg hj, ← hold]
    unfold node?
    simp only [create]
    rw [Array.getElem?_setIfInBounds]
    exact congrArg Option.join (if_neg hindex)

/-! ## Discarded nodes -/

/-- The node that has lost a parent. -/
def withoutParent (parent : NodeId) (node : Node) : Node :=
  { node with parents := node.parents.filter (· ≠ parent) }

theorem iterate_withoutParent (parent : NodeId) {n : Nat} (h : n ≠ 0) :
    (withoutParent parent)^[n] = withoutParent parent := by
  funext node
  induction n with
  | zero => exact (h rfl).elim
  | succ n ih =>
    rw [Function.iterate_succ_apply']
    by_cases hn : n = 0
    · simp [hn]
    · rw [ih hn]
      simp [withoutParent]

/-- Discarding a node touches the places, the free places, the indices and what is pending. -/
theorem discard_frame (net : Network) (id : NodeId) (node : Node) :
    net.discard id node =
      { net with
        slots := (net.discard id node).slots
        free := id :: net.free
        interned := net.interned.erase node.key
        leaves := leaveLeaf net.leaves node.key.op
        dirty := net.dirty.erase ⟨node.height, id⟩ } := by
  unfold discard
  exact foldl_modify_eq (withoutParent id) node.key.children _

/-- The place of a discarded node is the next to be filled. -/
theorem nextId_discard (net : Network) (id : NodeId) (node : Node) :
    (net.discard id node).nextId = id := by
  unfold nextId allocate
  rw [discard_frame]

theorem size_slots_discard (net : Network) (id : NodeId) (node : Node) :
    (net.discard id node).slots.size = net.slots.size := by
  unfold discard
  refine (size_slots_foldl_modify (withoutParent id) node.key.children _).trans ?_
  simp [vacate]

theorem node?_vacate (net : Network) (id j : NodeId) :
    (net.vacate id).node? j = if j = id then none else net.node? j := by
  unfold vacate node?
  rw [Array.getElem?_modify]
  by_cases h : j = id
  · subst h
    cases net.slots[j.index]? <;> simp
  · have hindex : id.index ≠ j.index := fun heq => h (NodeId.ext heq.symm)
    simp [h, hindex]

/-- A node at a place after another one with a key has been discarded. -/
def besideGap (gap : NodeId) (key : NodeKey) (id : NodeId) (node : Node) : Node :=
  if id ∈ key.children then withoutParent gap node else node

theorem bare_besideGap (gap : NodeId) (key : NodeKey) (id : NodeId) (node : Node) :
    (besideGap gap key id node).bare = node.bare := by
  unfold besideGap
  split <;> rfl

@[simp]
theorem besideGap_key (gap : NodeId) (key : NodeKey) (id : NodeId) (node : Node) :
    (besideGap gap key id node).key = node.key :=
  (Node.eq_of_bare (bare_besideGap gap key id node)).key

@[simp]
theorem besideGap_height (gap : NodeId) (key : NodeKey) (id : NodeId) (node : Node) :
    (besideGap gap key id node).height = node.height :=
  (Node.eq_of_bare (bare_besideGap gap key id node)).height

@[simp]
theorem besideGap_refcount (gap : NodeId) (key : NodeKey) (id : NodeId) (node : Node) :
    (besideGap gap key id node).refcount = node.refcount := by
  unfold besideGap
  split <;> rfl

theorem mem_parents_besideGap_iff {gap : NodeId} {key : NodeKey} {id p : NodeId} {node : Node} :
    p ∈ (besideGap gap key id node).parents ↔
      p ∈ node.parents ∧ ¬ (p = gap ∧ id ∈ key.children) := by
  by_cases hid : id ∈ key.children
  · simp [besideGap, hid, withoutParent]
  · simp [besideGap, hid]

theorem nodup_parents_besideGap {gap : NodeId} {key : NodeKey} {id : NodeId} {node : Node}
    (h : node.parents.Nodup) : (besideGap gap key id node).parents.Nodup := by
  unfold besideGap
  split
  · exact h.filter _
  · exact h

theorem node?_discard (net : Network) (id : NodeId) (node : Node) (j : NodeId) :
    (net.discard id node).node? j =
      if j = id then none else (net.node? j).map (besideGap id node.key j) := by
  let left : Network :=
    { net.vacate id with
      free := id :: net.free
      interned := net.interned.erase node.key
      leaves := leaveLeaf net.leaves node.key.op
      dirty := net.dirty.erase ⟨node.height, id⟩ }
  have hleft : left.node? j = if j = id then none else net.node? j := node?_vacate net id j
  have hfold : (net.discard id node).node? j =
      (left.node? j).map (withoutParent id)^[node.key.children.count j] :=
    node?_foldl_modify (withoutParent id) node.key.children left j
  rw [hfold, hleft]
  by_cases hj : j = id
  · simp [hj]
  · by_cases hmem : j ∈ node.key.children
    · have hcount : node.key.children.count j ≠ 0 := fun h => List.count_eq_zero.1 h hmem
      rw [iterate_withoutParent id hcount, if_neg hj]
      cases net.node? j <;> simp [besideGap, hj, hmem]
    · rw [List.count_eq_zero.2 hmem, if_neg hj]
      cases net.node? j <;> simp [besideGap, hj, hmem]

/-! ## What two networks share -/

/-- A network still has every node of another one, with the same key, height, value and input; only
its parents and its references may have changed. -/
def Keeps (before after : Network) : Prop :=
  ∀ id node, before.node? id = some node → (after.node? id).map Node.bare = some node.bare

theorem Keeps.refl (net : Network) : net.Keeps net := by
  intro id node h
  simp [h]

theorem Keeps.node? {before after : Network} (h : before.Keeps after) {id : NodeId} {node : Node}
    (hnode : before.node? id = some node) :
    ∃ node', after.node? id = some node' ∧ node'.bare = node.bare := by
  simpa using h id node hnode

/-- A node that is kept has the same content before and after. -/
theorem Keeps.sameContent {before after : Network} (h : before.Keeps after) {id : NodeId}
    {node node' : Node} (hnode : before.node? id = some node) (hnode' : after.node? id = some node') :
    node'.SameContent node := by
  obtain ⟨same, hsame, hbare⟩ := h.node? hnode
  have hnodes : node' = same := Option.some.inj (hnode'.symm.trans hsame)
  exact hnodes ▸ Node.eq_of_bare hbare

theorem Keeps.trans {a b c : Network} (hab : a.Keeps b) (hbc : b.Keeps c) : a.Keeps c := by
  intro id node h
  obtain ⟨node', hnode', hbare⟩ := hab.node? h
  rw [hbc id node' hnode', hbare]

theorem Keeps.live {before after : Network} (h : before.Keeps after) {id : NodeId}
    (hlive : before.Live id) : after.Live id := by
  obtain ⟨node, hnode⟩ := hlive
  obtain ⟨node', hnode', -⟩ := h.node? hnode
  exact ⟨node', hnode'⟩

theorem Keeps.value {before after : Network} (h : before.Keeps after) {id : NodeId}
    (hlive : before.Live id) : after.value id = before.value id := by
  obtain ⟨node, hnode⟩ := hlive
  obtain ⟨node', hnode', hbare⟩ := h.node? hnode
  rw [value_of_node? hnode', value_of_node? hnode, (Node.eq_of_bare hbare).value]

/-- Two networks have the same places and indices, and nodes with the same keys, heights and
parents, and their counts wrap around at the same number; references, values, inputs and what is
pending may differ. -/
structure SameGraph (before after : Network) : Prop where
  size : after.slots.size = before.slots.size
  free : after.free = before.free
  interned : after.interned = before.interned
  leaves : after.leaves = before.leaves
  wrapsAt : after.wrapsAt = before.wrapsAt
  links : ∀ id, (after.node? id).map Node.links = (before.node? id).map Node.links

namespace SameGraph

theorem refl (net : Network) : net.SameGraph net :=
  ⟨rfl, rfl, rfl, rfl, rfl, fun _ => rfl⟩

theorem symm {a b : Network} (h : a.SameGraph b) : b.SameGraph a :=
  ⟨h.size.symm, h.free.symm, h.interned.symm, h.leaves.symm, h.wrapsAt.symm,
    fun id => (h.links id).symm⟩

theorem trans {a b c : Network} (hab : a.SameGraph b) (hbc : b.SameGraph c) : a.SameGraph c :=
  ⟨hbc.size.trans hab.size, hbc.free.trans hab.free, hbc.interned.trans hab.interned,
    hbc.leaves.trans hab.leaves, hbc.wrapsAt.trans hab.wrapsAt,
    fun id => (hbc.links id).trans (hab.links id)⟩

/-- A node has a counterpart with the same links. -/
theorem node? {before after : Network} (h : before.SameGraph after) {id : NodeId} {node : Node}
    (hnode : before.node? id = some node) :
    ∃ node', after.node? id = some node' ∧ node'.key = node.key ∧ node'.height = node.height ∧
      node'.parents = node.parents := by
  have hlinks := h.links id
  rw [hnode] at hlinks
  simpa [Node.links] using hlinks

/-- Each place has a key of some kind if it had one before. -/
theorem exists_node?_iff {before after : Network} (h : before.SameGraph after)
    (q : NodeKey → Prop) (id : NodeId) :
    (∃ node, after.node? id = some node ∧ q node.key) ↔
      ∃ node, before.node? id = some node ∧ q node.key := by
  constructor
  · intro hafter
    rcases hafter with ⟨node, hnode, hq⟩
    rcases h.symm.node? hnode with ⟨old, hold, hkey, -⟩
    exact ⟨old, hold, hkey ▸ hq⟩
  · intro hbefore
    rcases hbefore with ⟨node, hnode, hq⟩
    rcases h.node? hnode with ⟨new, hnew, hkey, -⟩
    exact ⟨new, hnew, hkey ▸ hq⟩

theorem map_height {before after : Network} (h : before.SameGraph after) (id : NodeId) :
    (after.node? id).map Node.height = (before.node? id).map Node.height := by
  have hlinks := congrArg (Option.map fun l : NodeKey × Nat × List NodeId => l.2.1) (h.links id)
  rwa [Option.map_map, Option.map_map] at hlinks

theorem live {before after : Network} (h : before.SameGraph after) {id : NodeId}
    (hlive : before.Live id) : after.Live id := by
  obtain ⟨node, hnode⟩ := hlive
  obtain ⟨node', hnode', -⟩ := h.node? hnode
  exact ⟨node', hnode'⟩

theorem isSubscribed {before after : Network} (h : before.SameGraph after)
    (fact : FactKey) : after.isSubscribed fact = before.isSubscribed fact := by
  unfold Network.isSubscribed
  rw [h.leaves]

/-- A change of nodes that leaves their links alone keeps the graph. -/
theorem of_map {before after : Network} (f : NodeId → Node → Node)
    (hsize : after.slots.size = before.slots.size) (hfree : after.free = before.free)
    (hinterned : after.interned = before.interned) (hleaves : after.leaves = before.leaves)
    (hwraps : after.wrapsAt = before.wrapsAt)
    (hnode : ∀ id, after.node? id = (before.node? id).map (f id))
    (hf : ∀ id node, (f id node).links = node.links) : before.SameGraph after where
  size := hsize
  free := hfree
  interned := hinterned
  leaves := hleaves
  wrapsAt := hwraps
  links id := by
    rw [hnode]
    cases before.node? id <;> simp [hf]

end SameGraph

/-- Giving a reference back keeps the graph. -/
theorem sameGraph_giveBack (net : Network) (id : NodeId) : net.SameGraph (net.giveBack id) := by
  refine SameGraph.of_map (fun j => if j = id then lessReferences 1 else fun node => node)
    (size_slots_modify _ _ _) rfl rfl rfl rfl ?_ ?_
  · intro j
    rw [giveBack, node?_modify]
    by_cases hj : j = id
    · simp only [hj, if_true]
      rfl
    · simp [hj]
  · intro j node
    split <;> rfl

/-- Interning a key again keeps the graph. -/
theorem sameGraph_intern {net : Network} {key : NodeKey} {id : NodeId}
    (hfind : net.find? key = some id) : net.SameGraph (net.intern key).1 := by
  refine SameGraph.of_map (net.shareReferences key id) (size_slots_intern_of_find? hfind) ?_ ?_ ?_ ?_
    (node?_intern_of_find? hfind) (fun _ _ => rfl)
  all_goals rw [intern_of_find? hfind]

end Network
end Mandate
