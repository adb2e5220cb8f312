import Mandate.Proofs.Network.Lowering
import Mandate.Proofs.Network.Unfolding

/-!
# Building circuits

A circuit is built on top of a network whose references are in order.  All old nodes stay as they
are, the root stands for the circuit, and the facts that are reported as new are those that the
circuit reads and that no leaf followed before.

Main results:

- Theorem `Sound.build`: building keeps all nodes and the network sound, whatever the counts.
- Definition `HasRoomToBuild`: no count wraps around while a circuit is built.
- Theorem `Owned.consistent_intern`: interning a key keeps all values right.
- Definition `Builds`: what building a circuit does.
- Theorem `Owned.build`: building does that, for every circuit that there is room for.
-/

namespace Mandate

theorem NodeKey.wellFormed_leaf (op : Operator) : (⟨op, []⟩ : NodeKey).WellFormed :=
  ⟨fun _ _ => rfl, by simp⟩

theorem NodeKey.wellFormed_of_fact? {op : Operator} {children : List NodeId} (hop : op.fact? = none)
    (harity : children.length ≤ 2) : (⟨op, children⟩ : NodeKey).WellFormed := by
  refine ⟨?_, harity⟩
  rintro fact rfl
  simp [Operator.fact?] at hop

theorem Operator.ne_fact_of_fact? {op : Operator} (hop : op.fact? = none) (fact : FactKey) :
    op ≠ .fact fact := by
  rintro rfl
  simp [Operator.fact?] at hop

namespace Network

/-! ## Interning one key -/

theorem dirty_intern (net : Network) (key : NodeKey) : (net.intern key).1.dirty = net.dirty := by
  cases hfind : net.find? key with
  | some id => rw [intern_of_find? hfind]
  | none =>
    rw [intern_of_none hfind, create_frame]

/-- Building makes nothing pending. -/
theorem dirty_build (net : Network) (c : Circuit) : (net.build c).network.dirty = net.dirty := by
  induction c generalizing net with
  | leaf op => exact dirty_intern net _
  | unary op arg ih => exact (dirty_intern _ _).trans (ih net)
  | binary op left right ihl ihr =>
    exact (dirty_intern _ _).trans ((ihr _).trans (ihl net))

theorem epoch_intern (net : Network) (key : NodeKey) : (net.intern key).1.epoch = net.epoch := by
  cases hfind : net.find? key with
  | some id => rw [intern_of_find? hfind]
  | none =>
    rw [intern_of_none hfind, create_frame]

theorem wrapsAt_intern (net : Network) (key : NodeKey) :
    (net.intern key).1.wrapsAt = net.wrapsAt := by
  cases hfind : net.find? key with
  | some id => rw [intern_of_find? hfind]
  | none =>
    rw [intern_of_none hfind, create_frame]

theorem wrapsAt_build (net : Network) (c : Circuit) :
    (net.build c).network.wrapsAt = net.wrapsAt := by
  induction c generalizing net with
  | leaf op => exact wrapsAt_intern net _
  | unary op arg ih => exact (wrapsAt_intern _ _).trans (ih net)
  | binary op left right ihl ihr => exact (wrapsAt_intern _ _).trans ((ihr _).trans (ihl net))

namespace Sound

variable {net : Network}

/-- Interning leaves all nodes where they are. -/
theorem keeps_intern (h : net.Sound) (key : NodeKey) : net.Keeps (net.intern key).1 := by
  cases hfind : net.find? key with
  | some id =>
    intro j node hnode
    rw [node?_intern_of_find? hfind, hnode]
    rfl
  | none =>
    rw [intern_of_none hfind]
    exact h.keeps_create key

/-- The place that interning returns holds a node with the key. -/
theorem exists_node_intern (h : net.Sound) (key : NodeKey) :
    ∃ node, (net.intern key).1.node? (net.intern key).2 = some node ∧ node.key = key := by
  cases hfind : net.find? key with
  | some id =>
    rcases h.find?_eq_some_iff.1 hfind with ⟨node, hnode, hkey⟩
    have hid : (net.intern key).2 = id := by rw [intern_of_find? hfind]
    rw [hid, node?_intern_of_find? hfind, hnode]
    exact ⟨_, rfl, hkey⟩
  | none =>
    rw [intern_of_none hfind, create_id]
    exact ⟨_, h.node?_create_nextId key, rfl⟩

/-- Interning the key of a node returns its place. -/
theorem intern_id (h : net.Sound) {key : NodeKey} {id : NodeId} {node : Node}
    (hnode : net.node? id = some node) (hkey : node.key = key) : (net.intern key).2 = id := by
  rw [intern_of_find? (h.find?_eq_some_iff.2 ⟨node, hnode, hkey⟩)]

/-- After interning a node is a new one, with nothing but what its key calls for, or an old one. -/
theorem node?_intern_cases (h : net.Sound) {key : NodeKey} {id : NodeId} {node : Node}
    (hnode : (net.intern key).1.node? id = some node) :
    (net.find? key = none ∧ node.key = key ∧ node.input = none ∧
        node.value = net.compute key none) ∨
      ∃ old, net.node? id = some old ∧ node.bare = old.bare := by
  cases hfind : net.find? key with
  | some shared =>
    rw [node?_intern_of_find? hfind, Option.map_eq_some_iff] at hnode
    rcases hnode with ⟨old, hold, rfl⟩
    exact Or.inr ⟨old, hold, rfl⟩
  | none =>
    rw [intern_of_none hfind] at hnode
    rcases h.node?_create_cases hnode with ⟨-, rfl⟩ | ⟨old, hold, rfl⟩
    · exact Or.inl ⟨rfl, rfl, rfl, rfl⟩
    · exact Or.inr ⟨old, hold, net.bare_besideNew key id old⟩

/-- Building keeps all nodes, and the network sound. -/
theorem build (h : net.Sound) {c : Circuit} (hc : c.WellFormed) :
    (net.build c).network.Sound ∧ net.Keeps (net.build c).network := by
  induction c generalizing net with
  | leaf op => exact ⟨h.intern (NodeKey.wellFormed_leaf op), h.keeps_intern _⟩
  | unary op arg ih =>
    rcases ih h hc.2 with ⟨hsound, hkeeps⟩
    have hkey : (⟨op, [(net.build arg).root]⟩ : NodeKey).WellFormed :=
      NodeKey.wellFormed_of_fact? hc.1 (by simp)
    exact ⟨hsound.intern hkey, hkeeps.trans (hsound.keeps_intern _)⟩
  | binary op left right ihl ihr =>
    rcases ihl h hc.2.1 with ⟨hleft, hkeepsLeft⟩
    rcases ihr hleft hc.2.2 with ⟨hsound, hkeeps⟩
    have hkey : (⟨op, [(net.build left).root,
        ((net.build left).network.build right).root]⟩ : NodeKey).WellFormed :=
      NodeKey.wellFormed_of_fact? hc.1 (by simp)
    exact ⟨hsound.intern hkey, (hkeepsLeft.trans hkeeps).trans (hsound.keeps_intern _)⟩

/-- Interning the key of a leaf adds its fact to those that are followed. -/
theorem isSubscribed_intern_iff (h : net.Sound) {key : NodeKey} (hkey : key.WellFormed)
    (fact : FactKey) :
    (net.intern key).1.isSubscribed fact = true ↔
      net.isSubscribed fact = true ∨ key.op = .fact fact := by
  rw [(h.intern hkey).isSubscribed_iff, h.isSubscribed_iff]
  constructor
  · intro hleaf
    rcases hleaf with ⟨id, node, hnode, hop⟩
    rcases h.node?_intern_cases hnode with ⟨-, hsame, -⟩ | ⟨old, hold, hbare⟩
    · exact Or.inr (hsame ▸ hop)
    · exact Or.inl ⟨id, old, hold, (Node.eq_of_bare hbare).key ▸ hop⟩
  · intro hleaf
    rcases hleaf with ⟨id, node, hnode, hop⟩ | hop
    · rcases (h.keeps_intern key).node? hnode with ⟨node', hnode', hbare⟩
      exact ⟨id, node', hnode', (Node.eq_of_bare hbare).key ▸ hop⟩
    · rcases h.exists_node_intern key with ⟨node, hnode, hsame⟩
      exact ⟨_, node, hnode, hsame ▸ hop⟩

/-- A leaf gains its fact if nobody has followed it before. -/
theorem mem_gained_iff (h : net.Sound) {op : Operator} (fact : FactKey) :
    fact ∈ net.gained op ↔ op = .fact fact ∧ ¬ net.isSubscribed fact = true := by
  unfold gained
  cases hfind : net.find? ⟨op, []⟩ with
  | some id =>
    rcases h.find?_eq_some_iff.1 hfind with ⟨node, hnode, hkey⟩
    simp only [List.not_mem_nil, false_iff, not_and, not_not]
    rintro rfl
    exact (h.isSubscribed_iff fact).2 ⟨id, node, hnode, by rw [hkey]⟩
  | none =>
    rw [Operator.mem_fact?_iff]
    constructor
    · rintro rfl
      refine ⟨rfl, ?_⟩
      intro hsub
      rcases (h.isSubscribed_iff fact).1 hsub with ⟨id, node, hnode, hnodeOp⟩
      exact h.find?_eq_none_iff.1 hfind id node hnode (h.key_eq_leaf hnode hnodeOp)
    · exact And.left

end Sound

theorem nodup_gained (net : Network) (op : Operator) : (net.gained op).Nodup := by
  unfold gained
  split
  · exact List.nodup_nil
  · cases op.fact? <;> simp

/-- Interning a key over nodes that are there keeps all values right. -/
theorem Owned.consistent_intern {net : Network} {held : List NodeId} {key : NodeKey}
    (h : net.Owned (key.children ++ held)) (hcons : net.Consistent) :
    (net.intern key).1.Consistent := by
  have hkeeps := h.keeps_intern key
  intro id node hnode
  rw [dirty_intern]
  rcases h.node?_intern_cases hnode with ⟨-, hkey, hinput, hvalue⟩ | ⟨old, hold, hbare⟩
  · left
    rw [hvalue, hkey, hinput]
    refine (compute_congr none fun c hc => ?_).symm
    exact hkeeps.value (h.held_live (List.mem_append_left held hc))
  · have hsame := Node.eq_of_bare hbare
    rw [hsame.value, hsame.key, hsame.input, hsame.height]
    rcases hcons hold with hright | hdirty
    · left
      rw [hright]
      refine (compute_congr old.input fun c hc => ?_).symm
      exact hkeeps.value (h.child_live hold hc)
    · exact Or.inr hdirty

/-! ## Room for a circuit -/

/-- Whenever a node of the circuit is shared while the circuit is built, there is room for the
reference. -/
def HasRoomToBuild (net : Network) : Circuit → Prop
  | .leaf op => net.HasRoomFor ⟨op, []⟩
  | .unary op arg =>
    net.HasRoomToBuild arg ∧ (net.build arg).network.HasRoomFor ⟨op, [(net.build arg).root]⟩
  | .binary op left right =>
    net.HasRoomToBuild left ∧ (net.build left).network.HasRoomToBuild right ∧
      ((net.build left).network.build right).network.HasRoomFor
        ⟨op, [(net.build left).root, ((net.build left).network.build right).root]⟩

/-- There is room for the circuit of a constraint, if it has one. -/
def HasRoomToCompile (net : Network) (c : Constraint) : Prop :=
  ∀ circuit, c.Lowers circuit → net.HasRoomToBuild circuit

/-- Counts without a bound always have room. -/
theorem hasRoomToBuild_of_unbounded {net : Network} (h : net.wrapsAt = 0) (c : Circuit) :
    net.HasRoomToBuild c := by
  have hroom : ∀ {net : Network}, net.wrapsAt = 0 → ∀ key, net.HasRoomFor key :=
    fun hzero _ _ _ => Or.inl hzero
  induction c generalizing net with
  | leaf op => exact hroom h _
  | unary op arg ih => exact ⟨ih h, hroom ((net.wrapsAt_build arg).trans h) _⟩
  | binary op left right ihl ihr =>
    have hleft := (net.wrapsAt_build left).trans h
    exact ⟨ihl h, ihr hleft, hroom ((wrapsAt_build _ right).trans hleft) _⟩

/-! ## Building a circuit -/

/-- What building a circuit does to a network whose references are in order. -/
structure Builds (net : Network) (held : List NodeId) (c : Circuit) (built : Built) : Prop where
  owned : built.network.Owned (built.root :: held)
  keeps : net.Keeps built.network
  unfolds : built.network.Unfolds built.root c
  consistent : net.Consistent → built.network.Consistent
  dirty : built.network.dirty = net.dirty
  epoch : built.network.epoch = net.epoch
  wrapsAt : built.network.wrapsAt = net.wrapsAt
  subscribed : ∀ fact,
    built.network.isSubscribed fact = true ↔ net.isSubscribed fact = true ∨ fact ∈ c.facts
  newFacts_nodup : built.newFacts.Nodup
  mem_newFacts : ∀ fact,
    fact ∈ built.newFacts ↔ fact ∈ c.facts ∧ ¬ net.isSubscribed fact = true

/-- A leaf, shared or new. -/
theorem Owned.build_leaf {net : Network} {held : List NodeId} (h : net.Owned held)
    {op : Operator} (hroom : net.HasRoomFor ⟨op, []⟩) :
    net.Builds held (.leaf op) (net.build (.leaf op)) := by
  have hkey := NodeKey.wellFormed_leaf op
  have howned : net.Owned ((⟨op, []⟩ : NodeKey).children ++ held) := h
  rcases h.exists_node_intern ⟨op, []⟩ with ⟨node, hnode, hsame⟩
  have hop : ∀ fact, fact ∈ (Circuit.leaf op).facts ↔ op = .fact fact :=
    fun _ => Operator.mem_fact?_iff
  constructor
  · exact howned.intern hkey hroom
  · exact h.keeps_intern _
  · exact .leaf hnode hsame
  · exact howned.consistent_intern
  · exact dirty_intern _ _
  · exact epoch_intern _ _
  · exact wrapsAt_intern _ _
  · intro fact
    rw [hop]
    exact h.isSubscribed_intern_iff hkey fact
  · exact nodup_gained net op
  · intro fact
    rw [hop]
    exact h.mem_gained_iff fact

/-- An operator on top of one circuit that has been built. -/
theorem Builds.unary {net : Network} {held : List NodeId} {arg : Circuit} {built : Built}
    (h : net.Builds held arg built) {op : Operator} (hop : op.fact? = none)
    (hroom : built.network.HasRoomFor ⟨op, [built.root]⟩) :
    net.Builds held (.unary op arg)
      ⟨(built.network.intern ⟨op, [built.root]⟩).1, (built.network.intern ⟨op, [built.root]⟩).2,
        built.newFacts⟩ := by
  have hkey : (⟨op, [built.root]⟩ : NodeKey).WellFormed :=
    NodeKey.wellFormed_of_fact? hop (by simp)
  have howned : built.network.Owned ((⟨op, [built.root]⟩ : NodeKey).children ++ held) := h.owned
  have hkeeps := h.owned.keeps_intern ⟨op, [built.root]⟩
  rcases h.owned.exists_node_intern ⟨op, [built.root]⟩ with ⟨node, hnode, hsame⟩
  constructor
  · exact howned.intern hkey hroom
  · exact h.keeps.trans hkeeps
  · exact .unary hnode hsame (h.unfolds.mono hkeeps)
  · exact fun hcons => howned.consistent_intern (h.consistent hcons)
  · rw [dirty_intern, h.dirty]
  · rw [epoch_intern, h.epoch]
  · rw [wrapsAt_intern, h.wrapsAt]
  · intro fact
    rw [h.owned.isSubscribed_intern_iff hkey, h.subscribed, Circuit.facts]
    simp [Operator.ne_fact_of_fact? hop]
  · exact h.newFacts_nodup
  · exact h.mem_newFacts

/-- An operator on top of two circuits that have been built, one after the other. -/
theorem Builds.binary {net : Network} {held : List NodeId} {left right : Circuit} {l r : Built}
    (hl : net.Builds held left l) (hr : l.network.Builds (l.root :: held) right r)
    {op : Operator} (hop : op.fact? = none)
    (hroom : r.network.HasRoomFor ⟨op, [l.root, r.root]⟩) :
    net.Builds held (.binary op left right)
      ⟨(r.network.intern ⟨op, [l.root, r.root]⟩).1, (r.network.intern ⟨op, [l.root, r.root]⟩).2,
        l.newFacts ++ r.newFacts⟩ := by
  have hkey : (⟨op, [l.root, r.root]⟩ : NodeKey).WellFormed :=
    NodeKey.wellFormed_of_fact? hop (by simp)
  have howned : r.network.Owned ((⟨op, [l.root, r.root]⟩ : NodeKey).children ++ held) :=
    hr.owned.perm (List.Perm.swap _ _ _)
  have hkeeps := hr.owned.keeps_intern ⟨op, [l.root, r.root]⟩
  rcases hr.owned.exists_node_intern ⟨op, [l.root, r.root]⟩ with ⟨node, hnode, hsame⟩
  constructor
  · exact howned.intern hkey hroom
  · exact hl.keeps.trans (hr.keeps.trans hkeeps)
  · exact .binary hnode hsame ((hl.unfolds.mono hr.keeps).mono hkeeps) (hr.unfolds.mono hkeeps)
  · exact fun hcons => howned.consistent_intern (hr.consistent (hl.consistent hcons))
  · rw [dirty_intern, hr.dirty, hl.dirty]
  · rw [epoch_intern, hr.epoch, hl.epoch]
  · rw [wrapsAt_intern, hr.wrapsAt, hl.wrapsAt]
  · intro fact
    rw [hr.owned.isSubscribed_intern_iff hkey, hr.subscribed, hl.subscribed, Circuit.facts,
      List.mem_append]
    simp [Operator.ne_fact_of_fact? hop, or_assoc]
  · refine List.nodup_append.2 ⟨hl.newFacts_nodup, hr.newFacts_nodup, ?_⟩
    rintro fact hleft _ hright rfl
    have hfollowed : l.network.isSubscribed fact = true :=
      (hl.subscribed fact).2 (Or.inr ((hl.mem_newFacts fact).1 hleft).1)
    exact ((hr.mem_newFacts fact).1 hright).2 hfollowed
  · intro fact
    rw [List.mem_append, hl.mem_newFacts, hr.mem_newFacts, hl.subscribed, Circuit.facts,
      List.mem_append]
    by_cases hmem : fact ∈ left.facts <;> simp [hmem]

/-- Building a circuit keeps all that is there and adds what is missing. -/
theorem Owned.build {net : Network} {held : List NodeId} (h : net.Owned held) {c : Circuit}
    (hc : c.WellFormed) (hroom : net.HasRoomToBuild c) : net.Builds held c (net.build c) := by
  induction c generalizing net held with
  | leaf op => exact h.build_leaf hroom
  | unary op arg ih => exact (ih h hc.2 hroom.1).unary hc.1 hroom.2
  | binary op left right ihl ihr =>
    have hleft := ihl h hc.2.1 hroom.1
    exact hleft.binary (ihr hleft.owned hc.2.2 hroom.2.1) hc.1 hroom.2.2

/-- A constraint that the rules turn into a circuit is compiled into it, and any other one is
not compiled at all. -/
theorem compile_eq_ok_iff (net : Network) (c : Constraint) (built : Built) :
    net.compile c = .ok built ↔ ∃ circuit, c.Lowers circuit ∧ built = net.build circuit := by
  unfold compile
  cases hlower : c.lower with
  | ok circuit =>
    constructor
    · rintro ⟨⟩
      exact ⟨circuit, (c.lower_eq_ok_iff circuit).1 hlower, rfl⟩
    · rintro ⟨other, hother, rfl⟩
      rw [← c.lower_eq_ok_iff, hlower] at hother
      cases hother
      rfl
  | error reason =>
    simp only [reduceCtorEq, false_iff]
    rintro ⟨other, hother, -⟩
    rw [← c.lower_eq_ok_iff, hlower] at hother
    cases hother

/-- What is compiled is the circuit of the constraint. -/
theorem build_of_compile {net : Network} {c : Constraint} {built : Built}
    (h : net.compile c = .ok built) :
    c.Lowers (c.body.circuit c.permission) ∧
      built = net.build (c.body.circuit c.permission) := by
  rcases (net.compile_eq_ok_iff c built).1 h with ⟨circuit, hlowers, rfl⟩
  obtain rfl : circuit = c.body.circuit c.permission := (Formula.Lowers.passes hlowers).2
  exact ⟨hlowers, rfl⟩

/-- A constraint is not compiled if and only if it does not pass the check. -/
theorem compile_eq_error_iff (net : Network) (c : Constraint) (reason : CompileError) :
    net.compile c = .error reason ↔ c.check = .error reason := by
  rw [← c.lower_eq_error_iff]
  unfold compile
  cases c.lower <;> simp

/-- Compiling a constraint builds its circuit. -/
theorem Owned.compile {net : Network} {held : List NodeId} (h : net.Owned held) {c : Constraint}
    {built : Built} (hbuilt : net.compile c = .ok built) (hroom : net.HasRoomToCompile c) :
    ∃ circuit, c.Lowers circuit ∧ net.Builds held circuit built := by
  rcases (net.compile_eq_ok_iff c built).1 hbuilt with ⟨circuit, hlowers, rfl⟩
  exact ⟨circuit, hlowers, h.build (Formula.Lowers.wellFormed hlowers) (hroom circuit hlowers)⟩

end Network
end Mandate
