import Mandate.Proofs.Network.Supplying

/-!
# Propagation settles the network

Propagation takes the lowest pending node, computes it, and makes its parents pending if its value
has changed.  The invariant compares the network with the one at the start: whatever has had its
turn is lower than all that is pending, so it never becomes pending again, and the nodes that count
as changed are those whose value differs from the one at the start.

Main results:

- Definition `Recomputes`: two networks differ in values and in what is pending only.
- Definition `Ordered`: what has had its turn comes before all that is pending.
- Theorems `Ordered.turn`, `Ordered.length_lt`: so it stays, and the turns come to an end, in every
  sound network.
- Definition `Progress`: the invariant of propagation.
- Theorem `Progress.turn`: one turn keeps it.
- Theorem `Progress.propagateFor`: there are enough rounds for all turns.
- Theorem `Owned.propagate`: propagation settles the network and names the nodes that have changed.
-/

namespace Mandate

/-- The node without what propagation computes. -/
def Node.unevaluated (node : Node) : Node :=
  { node with value := .indeterminate, evaluations := 0 }

/-- Two nodes differ in what propagation computes only. -/
structure Node.SameSource (a b : Node) : Prop where
  key : a.key = b.key
  parents : a.parents = b.parents
  height : a.height = b.height
  refcount : a.refcount = b.refcount
  input : a.input = b.input
  inputEpoch : a.inputEpoch = b.inputEpoch

theorem Node.eq_of_unevaluated {a b : Node} (h : a.unevaluated = b.unevaluated) :
    a.SameSource b := by
  have hfields := h
  simp only [unevaluated, Node.mk.injEq] at hfields
  rcases hfields with ⟨hkey, hparents, hheight, hrefcount, -, hinput, hepoch, -⟩
  exact ⟨hkey, hparents, hheight, hrefcount, hinput, hepoch⟩

namespace Network

/-! ## What propagation leaves alone -/

/-- Two networks differ in values, in the counts of evaluations and in what is pending only. -/
structure Recomputes (before after : Network) : Prop where
  size : after.slots.size = before.slots.size
  free : after.free = before.free
  interned : after.interned = before.interned
  leaves : after.leaves = before.leaves
  epoch : after.epoch = before.epoch
  wrapsAt : after.wrapsAt = before.wrapsAt
  nodes : ∀ id, (after.node? id).map Node.unevaluated = (before.node? id).map Node.unevaluated

namespace Recomputes

variable {before after : Network}

theorem refl (net : Network) : net.Recomputes net :=
  ⟨rfl, rfl, rfl, rfl, rfl, rfl, fun _ => rfl⟩

theorem trans {a b c : Network} (hab : a.Recomputes b) (hbc : b.Recomputes c) :
    a.Recomputes c where
  size := hbc.size.trans hab.size
  free := hbc.free.trans hab.free
  interned := hbc.interned.trans hab.interned
  leaves := hbc.leaves.trans hab.leaves
  epoch := hbc.epoch.trans hab.epoch
  wrapsAt := hbc.wrapsAt.trans hab.wrapsAt
  nodes id := (hbc.nodes id).trans (hab.nodes id)

theorem node? (h : before.Recomputes after) {id : NodeId} {node : Node}
    (hnode : before.node? id = some node) :
    ∃ node', after.node? id = some node' ∧ node'.SameSource node := by
  have hsame := h.nodes id
  rw [hnode, Option.map_some, Option.map_eq_some_iff] at hsame
  rcases hsame with ⟨node', hnode', heq⟩
  exact ⟨node', hnode', Node.eq_of_unevaluated heq⟩

theorem sameGraph (h : before.Recomputes after) : before.SameGraph after where
  size := h.size
  free := h.free
  interned := h.interned
  leaves := h.leaves
  wrapsAt := h.wrapsAt
  links id := by
    have hlinks := congrArg (Option.map Node.links) (h.nodes id)
    rwa [Option.map_map, Option.map_map] at hlinks

theorem refcount (h : before.Recomputes after) (id : NodeId) :
    after.refcount id = before.refcount id := by
  have hcount := congrArg (Option.map Node.refcount) (h.nodes id)
  rw [Option.map_map, Option.map_map] at hcount
  unfold Network.refcount
  cases hafter : after.node? id <;> cases hbefore : before.node? id <;>
    simp_all [Node.unevaluated]

theorem leaf? (h : before.Recomputes after) (fact : FactKey) :
    (after.leaf? fact).map Node.unevaluated = (before.leaf? fact).map Node.unevaluated := by
  unfold Network.leaf?
  rw [h.leaves]
  cases before.leaves[fact]? with
  | none => rfl
  | some id => exact h.nodes id

/-- Inputs are not computed. -/
theorem input (h : before.Recomputes after) : after.input = before.input := by
  funext fact
  have hinput := congrArg (Option.map Node.input) (h.leaf? fact)
  rw [Option.map_map, Option.map_map] at hinput
  unfold Network.input
  cases hafter : after.leaf? fact <;> cases hbefore : before.leaf? fact <;>
    simp_all [Node.unevaluated]

theorem inputEpoch? (h : before.Recomputes after) (fact : FactKey) :
    after.inputEpoch? fact = before.inputEpoch? fact := by
  have hepoch := congrArg (Option.map Node.inputEpoch) (h.leaf? fact)
  rwa [Option.map_map, Option.map_map] at hepoch

end Recomputes

/-! ## Computing one node -/

section Recompute

variable {net : Network} {id : NodeId} {node : Node}

theorem node?_recompute (p : Propagation) (hnode : net.node? id = some node) (j : NodeId) :
    (net.recompute id node p).1.node? j =
      if j = id then some
        { node with
          value := net.compute node.key node.input, evaluations := node.evaluations + 1 }
      else net.node? j := by
  have hmodify : (net.recompute id node p).1.node? j =
      (net.modify id fun old =>
        { old with
          value := net.compute node.key node.input
          evaluations := old.evaluations + 1 }).node? j := by
    unfold recompute
    dsimp only
    split
    · rfl
    · rw [node?_foldl_mark]
  rw [hmodify, node?_modify]
  by_cases hj : j = id
  · rw [if_pos hj, if_pos hj, hj, hnode, Option.map_some]
  · rw [if_neg hj, if_neg hj]

theorem value_recompute (p : Propagation) (hnode : net.node? id = some node) (j : NodeId) :
    (net.recompute id node p).1.value j =
      if j = id then net.compute node.key node.input else net.value j := by
  unfold Network.value
  rw [node?_recompute p hnode]
  by_cases hj : j = id
  · rw [if_pos hj, if_pos hj]
  · rw [if_neg hj, if_neg hj]

theorem recomputes_recompute (p : Propagation) (hnode : net.node? id = some node) :
    net.Recomputes (net.recompute id node p).1 := by
  have hframe : ∃ dirty, (net.recompute id node p).1 =
      { net with slots := (net.recompute id node p).1.slots, dirty } := by
    refine ⟨(net.recompute id node p).1.dirty, ?_⟩
    unfold recompute
    dsimp only
    split
    · rfl
    · rw [foldl_mark_frame]
      rfl
  have hsize : (net.recompute id node p).1.slots.size = net.slots.size := by
    unfold recompute
    dsimp only
    split
    · exact size_slots_modify _ _ _
    · rw [foldl_mark_frame]
      exact size_slots_modify _ _ _
  rcases hframe with ⟨dirty, hframe⟩
  constructor
  · exact hsize
  · rw [hframe]
  · rw [hframe]
  · rw [hframe]
  · rw [hframe]
  · rw [hframe]
  · intro j
    rw [node?_recompute p hnode]
    by_cases hj : j = id
    · rw [if_pos hj, hj, hnode]
      rfl
    · rw [if_neg hj]

/-- A node whose value changes makes its parents pending. -/
theorem mem_dirty_recompute_iff (p : Propagation) {due : Pending} :
    due ∈ (net.recompute id node p).1.dirty ↔ due ∈ net.dirty ∨
      (node.value ≠ net.compute node.key node.input ∧ due.id ∈ node.parents ∧ net.Due due) := by
  unfold recompute
  dsimp only
  split
  · next hsame => simp [modify, hsame]
  · next hne =>
    rw [mem_dirty_foldl_mark_iff]
    refine or_congr_right ?_
    rw [and_iff_right hne]
    refine and_congr_right fun _ => ?_
    unfold Due
    rw [node?_modify]
    by_cases hid : due.id = id
    · rw [if_pos hid]
      cases net.node? due.id <;> simp
    · rw [if_neg hid]

/-- A node whose value changes is named. -/
theorem mem_changed_recompute_iff (p : Propagation) {j : NodeId} :
    j ∈ (net.recompute id node p).2.changed ↔ j ∈ p.changed ∨
      (j = id ∧ node.value ≠ net.compute node.key node.input) := by
  unfold recompute
  dsimp only
  split
  · next hsame => simp [hsame]
  · next hne => simp [hne]

end Recompute

/-! ## One turn -/

/-- The network after the turn of a pending node. -/
def turn (net : Network) (due : Pending) (node : Node) (p : Propagation) : Network × Propagation :=
  { net with dirty := net.dirty.erase due }.recompute due.id node p

section Turn

variable {net : Network} {due : Pending} {node : Node}

theorem node?_turn (p : Propagation) (hnode : net.node? due.id = some node) (j : NodeId) :
    (net.turn due node p).1.node? j =
      if j = due.id then some
        { node with
          value := net.compute node.key node.input, evaluations := node.evaluations + 1 }
      else net.node? j := by
  let erased : Network := { net with dirty := net.dirty.erase due }
  have hthere : erased.node? due.id = some node := hnode
  exact node?_recompute p hthere j

theorem value_turn (p : Propagation) (hnode : net.node? due.id = some node) (j : NodeId) :
    (net.turn due node p).1.value j =
      if j = due.id then net.compute node.key node.input else net.value j := by
  let erased : Network := { net with dirty := net.dirty.erase due }
  have hthere : erased.node? due.id = some node := hnode
  exact value_recompute p hthere j

theorem recomputes_turn (p : Propagation) (hnode : net.node? due.id = some node) :
    net.Recomputes (net.turn due node p).1 := by
  have herase : net.Recomputes { net with dirty := net.dirty.erase due } :=
    ⟨rfl, rfl, rfl, rfl, rfl, rfl, fun _ => rfl⟩
  exact herase.trans (recomputes_recompute p hnode)

theorem mem_dirty_turn_iff (p : Propagation) {other : Pending} :
    other ∈ (net.turn due node p).1.dirty ↔ (other ∈ net.dirty ∧ other ≠ due) ∨
      (node.value ≠ net.compute node.key node.input ∧ other.id ∈ node.parents ∧
        net.Due other) := by
  unfold turn
  rw [mem_dirty_recompute_iff]
  refine or_congr_left ?_
  simp only [Std.TreeSet.mem_erase, ne_eq, Std.LawfulEqCmp.compare_eq_iff_eq]
  rw [and_comm, eq_comm]

end Turn

theorem min?_dirty_eq_none_iff {net : Network} :
    net.dirty.min? = none ↔ ∀ due, due ∉ net.dirty := by
  rw [Std.TreeSet.min?_eq_none_iff, Std.TreeSet.isEmpty_iff_forall_not_mem]

theorem propagateFor_of_empty {net : Network} {rounds : Nat} {p : Propagation}
    (hmin : net.dirty.min? = none) : net.propagateFor rounds p = (net, p) := by
  cases rounds with
  | zero => rfl
  | succ rounds => simp only [propagateFor, hmin]

/-- With nothing pending, propagation does nothing. -/
theorem propagate_of_settled {net : Network} (h : ∀ due, due ∉ net.dirty) :
    net.propagate = (net, {}) :=
  propagateFor_of_empty (min?_dirty_eq_none_iff.2 h)

theorem propagateFor_succ {net : Network} {rounds : Nat} {p : Propagation} {due : Pending}
    {node : Node} (hmin : net.dirty.min? = some due) (hnode : net.node? due.id = some node) :
    net.propagateFor (rounds + 1) p =
      (net.turn due node p).1.propagateFor rounds (net.turn due node p).2 := by
  have herased : { net with dirty := net.dirty.erase due }.node? due.id = some node := hnode
  simp only [propagateFor, hmin, herased]
  rfl

/-! ## The order of turns -/

theorem compare_lt_of_height {a b : Pending} (h : a.height < b.height) : compare a b = .lt := by
  have hheight : compareOn Pending.height a b = .lt := by
    simpa [compareOn, Nat.compare_eq_lt] using h
  simp [compare, compareLex, hheight]

/-- The lowest pending node is lower than all others. -/
theorem compare_lt_of_min? {dirty : Std.TreeSet Pending} {due other : Pending}
    (hmin : dirty.min? = some due) (hmem : other ∈ dirty) (hne : other ≠ due) :
    compare due other = .lt := by
  have hle := (Std.TreeSet.min?_eq_some_iff_mem_and_forall.1 hmin).2 other hmem
  cases hcompare : compare due other with
  | lt => rfl
  | eq => exact (hne (Std.LawfulEqOrd.eq_of_compare hcompare).symm).elim
  | gt => simp [hcompare] at hle

/-- The nodes `done` have had their turn, the last one in front.  None of them is named twice, and all
of them come before what is pending. -/
structure Ordered (net : Network) (done : List NodeId) : Prop where
  sound : net.Sound
  nodup : done.Nodup
  below : ∀ id ∈ done, ∃ node, net.node? id = some node ∧
    ∀ due ∈ net.dirty, compare (⟨node.height, id⟩ : Pending) due = .lt

/-- What is pending after a turn is there. -/
theorem Sound.due_turn {net : Network} (h : net.Sound) {due other : Pending} {node : Node}
    {p : Propagation} (hnode : net.node? due.id = some node)
    (hother : other ∈ (net.turn due node p).1.dirty) : (net.turn due node p).1.Due other := by
  have hthere : net.Due other := by
    rcases (mem_dirty_turn_iff p).1 hother with ⟨hold, -⟩ | ⟨-, -, hnew⟩
    · exact h.dirty other hold
    · exact hnew
  rcases hthere with ⟨old, hold, hheight⟩
  rcases (recomputes_turn p hnode).node? hold with ⟨new, hnew, hsame⟩
  exact ⟨new, hnew, hsame.height.trans hheight⟩

/-- A turn keeps the indices in agreement with the places. -/
theorem Sound.turn {net : Network} (h : net.Sound) {due : Pending} {node : Node}
    (hnode : net.node? due.id = some node) (p : Propagation) : (net.turn due node p).1.Sound :=
  h.sameGraph (recomputes_turn p hnode).sameGraph fun _ => h.due_turn hnode

namespace Ordered

variable {net : Network} {done : List NodeId} {due : Pending} {node : Node} {p : Propagation}

theorem init (h : net.Sound) : net.Ordered [] where
  sound := h
  nodup := List.nodup_nil
  below := by simp

/-- A node that is pending has not had its turn. -/
theorem not_done (h : net.Ordered done) (hdue : due ∈ net.dirty) : due.id ∉ done := by
  intro hmem
  rcases h.below due.id hmem with ⟨node, hnode, hbelow⟩
  rcases h.sound.dirty due hdue with ⟨same, hsame, hheight⟩
  have hnodes : node = same := Option.some.inj (hnode.symm.trans hsame)
  have hentry : (⟨node.height, due.id⟩ : Pending) = due := by
    rw [hnodes, hheight]
  have hlt := hbelow due hdue
  rw [hentry, Std.ReflOrd.compare_self] at hlt
  cases hlt

/-- A node has its turn before all that is pending afterwards, since its parents are higher. -/
theorem lt_of_mem_turn (h : net.Ordered done) (hmin : net.dirty.min? = some due)
    (hnode : net.node? due.id = some node) {other : Pending}
    (hother : other ∈ (net.turn due node p).1.dirty) : compare due other = .lt := by
  rcases (mem_dirty_turn_iff p).1 hother with ⟨hold, hne⟩ | ⟨-, hparent, above, habove, hheight⟩
  · exact compare_lt_of_min? hmin hold hne
  · have hdue := (Std.TreeSet.min?_eq_some_iff_mem_and_forall.1 hmin).1
    rcases h.sound.dirty due hdue with ⟨same, hsame, hdueHeight⟩
    have hnodes : node = same := Option.some.inj (hnode.symm.trans hsame)
    rcases h.sound.parents hnode hparent with ⟨parent, hparentNode, -, hlt⟩
    have habove' : above = parent := Option.some.inj (habove.symm.trans hparentNode)
    refine compare_lt_of_height ?_
    rw [← hheight, ← hdueHeight, ← hnodes, habove']
    exact hlt

/-- One turn keeps the order. -/
theorem turn (h : net.Ordered done) (hmin : net.dirty.min? = some due)
    (hnode : net.node? due.id = some node) (p : Propagation) :
    (net.turn due node p).1.Ordered (due.id :: done) := by
  have hdue := (Std.TreeSet.min?_eq_some_iff_mem_and_forall.1 hmin).1
  have hrecomputes := recomputes_turn p hnode
  constructor
  · exact h.sound.turn hnode p
  · exact List.nodup_cons.2 ⟨h.not_done hdue, h.nodup⟩
  · intro id hid
    rcases List.mem_cons.1 hid with rfl | hid
    · rcases h.sound.dirty due hdue with ⟨old, hold, hheight⟩
      rcases hrecomputes.node? hold with ⟨new, hnew, hsame⟩
      refine ⟨new, hnew, fun other hother => ?_⟩
      have hentry : (⟨new.height, due.id⟩ : Pending) = due := by
        rw [hsame.height, hheight]
      rw [hentry]
      exact h.lt_of_mem_turn hmin hnode hother
    · rcases h.below id hid with ⟨old, hold, hbelow⟩
      rcases hrecomputes.node? hold with ⟨new, hnew, hsame⟩
      refine ⟨new, hnew, fun other hother => ?_⟩
      rw [hsame.height]
      exact Std.TransCmp.lt_trans (hbelow due hdue) (h.lt_of_mem_turn hmin hnode hother)

/-- There are no more turns than places. -/
theorem length_lt (h : net.Ordered done) (hdue : due ∈ net.dirty) :
    done.length < net.slots.size := by
  have hnodup : (due.id :: done).Nodup := List.nodup_cons.2 ⟨h.not_done hdue, h.nodup⟩
  have hindices : ((due.id :: done).map NodeId.index).Nodup :=
    hnodup.map fun _ _ hindex => NodeId.ext hindex
  have hrange : (due.id :: done).map NodeId.index ⊆ List.range net.slots.size := by
    intro i hi
    rcases List.mem_map.1 hi with ⟨id, hid, rfl⟩
    rw [List.mem_range]
    rcases List.mem_cons.1 hid with rfl | hid
    · rcases h.sound.dirty due hdue with ⟨node, hnode, -⟩
      exact lt_size_of_node? hnode
    · rcases h.below id hid with ⟨node, hnode, -⟩
      exact lt_size_of_node? hnode
  have hlength := (List.subperm_of_subset hindices hrange).length_le
  rw [List.length_map, List.length_range, List.length_cons] at hlength
  omega

end Ordered

/-! ## The invariant -/

/-- Propagation from `start` has reached `net`; the nodes `done` have had their turn, the last one
in front. -/
structure Progress (start : Network) (held : List NodeId) (net : Network) (p : Propagation)
    (done : List NodeId) : Prop where
  recomputes : start.Recomputes net
  owned : net.Owned held
  consistent : net.Consistent
  nodup : done.Nodup
  below : ∀ id ∈ done, ∃ node, net.node? id = some node ∧
    ∀ due ∈ net.dirty, compare (⟨node.height, id⟩ : Pending) due = .lt
  changed_iff : ∀ id, id ∈ p.changed ↔ net.value id ≠ start.value id
  untouched : ∀ id, id ∉ done → net.value id = start.value id

namespace Progress

variable {start net : Network} {held : List NodeId} {p : Propagation} {done : List NodeId}

theorem init (h : start.Owned held) (hcons : start.Consistent) :
    Progress start held start {} [] where
  recomputes := Recomputes.refl start
  owned := h
  consistent := hcons
  nodup := List.nodup_nil
  below := by simp
  changed_iff := by simp
  untouched := fun _ _ => rfl

theorem ordered (h : Progress start held net p done) : net.Ordered done :=
  ⟨h.owned.toSound, h.nodup, h.below⟩

section Turn

variable {due : Pending} {node : Node}

/-- A turn keeps all values right. -/
theorem consistent_turn (h : Progress start held net p done)
    (hnode : net.node? due.id = some node) : (net.turn due node p).1.Consistent := by
  have hvalue := value_turn p hnode
  intro j current hcurrent
  rw [node?_turn p hnode] at hcurrent
  by_cases hj : j = due.id
  · -- the node itself is not among its children, whose values stay
    rw [if_pos hj] at hcurrent
    cases hcurrent
    left
    refine (compute_congr node.input fun c hc => ?_).symm
    have hne : c ≠ due.id := by
      rintro rfl
      exact h.owned.not_mem_children_self hnode hc
    rw [hvalue, if_neg hne]
  · rw [if_neg hj] at hcurrent
    rcases h.consistent hcurrent with hright | hdirty
    · by_cases hchild : due.id ∈ current.key.children ∧
          node.value ≠ net.compute node.key node.input
      · -- a parent of a node that has changed is pending now
        right
        rcases h.owned.children hcurrent hchild.1 with ⟨below, hbelow, hparent⟩
        have hsame : node = below := Option.some.inj (hnode.symm.trans hbelow)
        refine (mem_dirty_turn_iff p).2 (Or.inr ⟨hchild.2, hsame ▸ hparent, ?_⟩)
        exact ⟨current, hcurrent, rfl⟩
      · left
        rw [hright]
        refine (compute_congr current.input fun c hc => ?_).symm
        rw [hvalue]
        by_cases hc' : c = due.id
        · rw [if_pos hc', hc', value_of_node? hnode]
          by_contra hne
          exact hchild ⟨hc' ▸ hc, fun heq => hne heq.symm⟩
        · rw [if_neg hc']
    · right
      refine (mem_dirty_turn_iff p).2 (Or.inl ⟨hdirty, ?_⟩)
      intro heq
      exact hj (congrArg Pending.id heq)

/-- One turn of propagation. -/
theorem turn (h : Progress start held net p done) (hmin : net.dirty.min? = some due)
    (hnode : net.node? due.id = some node) :
    Progress start held (net.turn due node p).1 (net.turn due node p).2 (due.id :: done) := by
  have hdue := (Std.TreeSet.min?_eq_some_iff_mem_and_forall.1 hmin).1
  have hrecomputes := recomputes_turn p hnode
  have hvalue := value_turn p hnode
  have hfresh := h.ordered.not_done hdue
  have hordered := h.ordered.turn hmin hnode p
  constructor
  · exact h.recomputes.trans hrecomputes
  · exact h.owned.sameGraph hrecomputes.sameGraph hrecomputes.refcount fun _ =>
      h.owned.due_turn hnode
  · exact h.consistent_turn hnode
  · exact hordered.nodup
  · exact hordered.below
  · intro id
    have hmem : id ∈ (net.turn due node p).2.changed ↔ id ∈ p.changed ∨
        (id = due.id ∧ node.value ≠ net.compute node.key node.input) :=
      mem_changed_recompute_iff p
    rw [hmem, hvalue, h.changed_iff]
    by_cases hid : id = due.id
    · -- before its turn the node has the value from the start
      have hbefore : net.value id = start.value id := h.untouched id (hid ▸ hfresh)
      have hold : node.value = start.value id := by
        rw [← value_of_node? hnode, ← hid, hbefore]
      rw [if_pos hid, hbefore, hold]
      simp [hid, eq_comm]
    · rw [if_neg hid]
      simp [hid]
  · intro id hid
    rw [List.mem_cons, not_or] at hid
    rw [hvalue, if_neg hid.1]
    exact h.untouched id hid.2

end Turn

/-- With a round left for every place, propagation ends with nothing pending. -/
theorem propagateFor {rounds : Nat} (h : Progress start held net p done)
    (hrounds : net.slots.size ≤ rounds + done.length) :
    ∃ done', Progress start held (net.propagateFor rounds p).1 (net.propagateFor rounds p).2 done' ∧
      ∀ due, due ∉ (net.propagateFor rounds p).1.dirty := by
  induction rounds generalizing net p done with
  | zero =>
    refine ⟨done, h, fun due hdue => ?_⟩
    have hlt := h.ordered.length_lt hdue
    omega
  | succ rounds ih =>
    cases hmin : net.dirty.min? with
    | none =>
      rw [propagateFor_of_empty hmin]
      exact ⟨done, h, min?_dirty_eq_none_iff.1 hmin⟩
    | some due =>
      have hdue := (Std.TreeSet.min?_eq_some_iff_mem_and_forall.1 hmin).1
      rcases h.owned.dirty due hdue with ⟨node, hnode, -⟩
      rw [propagateFor_succ hmin hnode]
      refine ih (h.turn hmin hnode) ?_
      rw [(recomputes_turn p hnode).size, List.length_cons]
      omega

end Progress

/-! ## Propagation -/

/-- What propagation does to a network whose references are in order. -/
structure Propagates (net : Network) (held : List NodeId) (after : Network) (p : Propagation) :
    Prop where
  recomputes : net.Recomputes after
  owned : after.Owned held
  settled : after.Settled
  changed_iff : ∀ id, id ∈ p.changed ↔ after.value id ≠ net.value id

/-- Propagation settles the network, whatever is pending. -/
theorem Owned.propagate {net : Network} {held : List NodeId} (h : net.Owned held)
    (hcons : net.Consistent) : net.Propagates held net.propagate.1 net.propagate.2 := by
  have hrounds : net.slots.size ≤ net.slots.size + ([] : List NodeId).length := by simp
  rcases (Progress.init h hcons).propagateFor hrounds with ⟨done, hend, hempty⟩
  exact ⟨hend.recomputes, hend.owned, ⟨hempty, hend.consistent⟩, hend.changed_iff⟩

end Network
end Mandate
