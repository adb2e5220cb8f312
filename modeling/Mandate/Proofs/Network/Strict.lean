import Mandate.Proofs.Network.Turns

/-!
# The network without fallbacks

The operations of a network pass over a missing node, take nothing away from a count that is zero,
and give up when the rounds of a propagation run out.  Here are the same operations without these
fallbacks: they fail instead.  In a network whose references are in order they never do, and have
the same results.

Main results:

- Definitions `modify?`, `giveBack?`: one step that needs a node, and a reference.
- Theorem `foldlM_eq_some_foldl`: what it takes for several such steps to succeed.
- Theorems `foldlM_modify?`, `foldlM_giveBack?`, `foldlM_mark?`: the same for nodes.
- Theorem `Owned.intern?`, `Owned.build?`: building finds all nodes and references it asks for.
- Theorem `Owned.releaseAll?`: so does releasing.
- Theorem `Progress.propagateFor?`: so does propagating, and the rounds suffice.
- Theorem `Ledger.Kept.perform?`: no permitted call needs a fallback.
-/

namespace Mandate
namespace Network

/-! ## Steps that may fail -/

/-- Steps succeed one after the other if each of them succeeds where all that is left to do can be
done, and leaves it so. -/
theorem foldlM_eq_some_foldl {α β : Type} {step? : β → α → Option β} {step : β → α → β}
    (ready : List α → β → Prop)
    (hstep : ∀ a rest b, ready (a :: rest) b →
      step? b a = some (step b a) ∧ ready rest (step b a))
    {todo : List α} {b : β} (h : ready todo b) :
    todo.foldlM step? b = some (todo.foldl step b) := by
  induction todo generalizing b with
  | nil => rfl
  | cons a rest ih =>
    rcases hstep a rest b h with ⟨hsome, hrest⟩
    rw [List.foldlM_cons, hsome, List.foldl_cons]
    exact ih hrest

/-- Changes the node at a place, which has to be there. -/
def modify? (net : Network) (id : NodeId) (f : Node → Node) : Option Network :=
  match net.node? id with
  | some _ => some (net.modify id f)
  | none => none

/-- One more reference to a node, which has to be there. -/
def retain? (net : Network) (id : NodeId) : Option Network :=
  net.modify? id fun node => { node with refcount := (node.refcount + 1) % net.wrapsAt }

/-- One reference less to a node, which has to have one. -/
def giveBack? (net : Network) (id : NodeId) : Option Network :=
  match net.node? id with
  | some node => if node.refcount = 0 then none else some (net.giveBack id)
  | none => none

theorem modify?_of_live {net : Network} {id : NodeId} (h : net.Live id) (f : Node → Node) :
    net.modify? id f = some (net.modify id f) := by
  rcases h with ⟨node, hnode⟩
  simp only [modify?, hnode]

theorem retain?_of_live {net : Network} {id : NodeId} (h : net.Live id) :
    net.retain? id = some (net.retain id) :=
  modify?_of_live h _

/-- A change that may fail does what the change does. -/
theorem eq_of_modify? {net after : Network} {id : NodeId} {f : Node → Node}
    (h : net.modify? id f = some after) : after = net.modify id f := by
  unfold modify? at h
  split at h
  · exact (Option.some.inj h).symm
  · cases h

theorem live_modify {net : Network} {id j : NodeId} (f : Node → Node) (h : net.Live j) :
    (net.modify id f).Live j := by
  rcases h with ⟨node, hnode⟩
  by_cases hj : j = id
  · exact ⟨f node, by rw [node?_modify, if_pos hj, hnode, Option.map_some]⟩
  · exact ⟨node, by rw [node?_modify, if_neg hj, hnode]⟩

/-- Nodes that are there can all be changed. -/
theorem foldlM_modify? (f : Node → Node) {ids : List NodeId} {net : Network}
    (h : ∀ id ∈ ids, net.Live id) :
    ids.foldlM (fun net id => net.modify? id f) net =
      some (ids.foldl (fun net id => net.modify id f) net) := by
  refine foldlM_eq_some_foldl (fun ids net => ∀ id ∈ ids, net.Live id)
    (fun id rest net hlive => ?_) h
  refine ⟨modify?_of_live (hlive id List.mem_cons_self) f, fun j hj => ?_⟩
  exact live_modify f (hlive j (List.mem_cons_of_mem _ hj))

theorem eq_of_foldlM_modify? {f : Node → Node} {ids : List NodeId} {net after : Network}
    (h : ids.foldlM (fun net id => net.modify? id f) net = some after) :
    after = ids.foldl (fun net id => net.modify id f) net := by
  induction ids generalizing net with
  | nil => exact (Option.some.inj h).symm
  | cons id ids ih =>
    rw [List.foldlM_cons] at h
    rcases Option.bind_eq_some_iff.1 h with ⟨next, hnext, hrest⟩
    rw [List.foldl_cons, ← eq_of_modify? hnext]
    exact ih hrest

/-- References can be given back to nodes that have as many. -/
theorem foldlM_giveBack? {ids : List NodeId} {net : Network}
    (h : ∀ id ∈ ids, ∃ node, net.node? id = some node ∧ ids.count id ≤ node.refcount) :
    ids.foldlM giveBack? net = some (ids.foldl giveBack net) := by
  refine foldlM_eq_some_foldl
    (fun ids net => ∀ id ∈ ids, ∃ node, net.node? id = some node ∧ ids.count id ≤ node.refcount)
    (fun id rest net hmany => ?_) h
  rcases hmany id List.mem_cons_self with ⟨node, hnode, hcount⟩
  rw [List.count_cons_self] at hcount
  have hpos : node.refcount ≠ 0 := by omega
  refine ⟨by simp only [giveBack?, hnode, if_neg hpos], fun j hj => ?_⟩
  rcases hmany j (List.mem_cons_of_mem _ hj) with ⟨old, hold, hold'⟩
  by_cases hsame : j = id
  · -- the node has one reference less, and is named once less
    subst hsame
    rw [hold, Option.some.injEq] at hnode
    subst hnode
    refine ⟨_, by rw [giveBack, node?_modify, if_pos rfl, hold, Option.map_some], ?_⟩
    dsimp only
    omega
  · refine ⟨old, by rw [giveBack, node?_modify, if_neg hsame, hold], ?_⟩
    rwa [List.count_cons_of_ne fun heq => hsame heq.symm] at hold'

/-! ## Values and heights -/

/-- The value of the node at a place. -/
def value? (net : Network) (id : NodeId) : Option Value :=
  (net.node? id).map Node.value

/-- The value that a node with the key and the input should have. -/
def compute? (net : Network) (key : NodeKey) (input : Option FactValue) : Option Value :=
  match key.op with
  | .fact fact => some (.ofFact fact input)
  | op => (key.children.mapM net.value?).map op.apply

/-- The height of a node over the given children. -/
def heightOver? (net : Network) (children : List NodeId) : Option Nat :=
  children.foldlM (fun height id => (net.node? id).map fun node => max height (node.height + 1)) 0

theorem mapM_value? {net : Network} {ids : List NodeId} (h : ∀ id ∈ ids, net.Live id) :
    ids.mapM net.value? = some (ids.map net.value) := by
  induction ids with
  | nil => rfl
  | cons id ids ih =>
    rcases h id List.mem_cons_self with ⟨node, hnode⟩
    have hvalue : net.value? id = some (net.value id) := by
      rw [value?, hnode, Option.map_some, value_of_node? hnode]
    rw [List.mapM_cons, hvalue, ih fun j hj => h j (List.mem_cons_of_mem _ hj)]
    rfl

theorem compute?_of_live {net : Network} {key : NodeKey} (input : Option FactValue)
    (h : ∀ c ∈ key.children, net.Live c) :
    net.compute? key input = some (net.compute key input) := by
  unfold compute? compute
  rw [mapM_value? h]
  cases key.op <;> rfl

theorem heightOver?_of_live {net : Network} {children : List NodeId}
    (h : ∀ c ∈ children, net.Live c) :
    net.heightOver? children = some (net.heightOver children) := by
  refine foldlM_eq_some_foldl (fun ids _ => ∀ id ∈ ids, net.Live id)
    (fun id rest height hlive => ⟨?_, fun j hj => hlive j (List.mem_cons_of_mem _ hj)⟩) h
  rcases hlive id List.mem_cons_self with ⟨child, hchild⟩
  simp only [hchild, Option.map_some]

/-! ## Building -/

/-- A new node with the key, over children that are there and in a place that exists. -/
def create? (net : Network) (key : NodeKey) : Option (Network × NodeId) := do
  let height ← net.heightOver? key.children
  let value ← net.compute? key none
  let (allocated, id) := net.allocate
  let adopted ← key.children.foldlM (fun net c => net.modify? c (withParent id)) allocated
  let node : Node :=
    { key, parents := [], height, refcount := 1, value, input := none, inputEpoch := adopted.epoch,
      evaluations := 1 }
  if id.index < adopted.slots.size then
    some ({ adopted with
      slots := adopted.slots.setIfInBounds id.index (some node)
      interned := adopted.interned.insert key id
      leaves := enterLeaf adopted.leaves key.op id }, id)
  else none

/-- The node for a key, and one reference to it. -/
def intern? (net : Network) (key : NodeKey) : Option (Network × NodeId) :=
  match net.find? key with
  | some id => do
    let left ← key.children.foldlM giveBack? net
    let shared ← left.retain? id
    some (shared, id)
  | none => net.create? key

/-- Builds a circuit. -/
def build? (net : Network) : Circuit → Option Built
  | .leaf op => do
    let (after, root) ← net.intern? ⟨op, []⟩
    some ⟨after, root, net.gained op⟩
  | .unary op arg => do
    let arg ← net.build? arg
    let (after, root) ← arg.network.intern? ⟨op, [arg.root]⟩
    some ⟨after, root, arg.newFacts⟩
  | .binary op left right => do
    let left ← net.build? left
    let right ← left.network.build? right
    let (after, root) ← right.network.intern? ⟨op, [left.root, right.root]⟩
    some ⟨after, root, left.newFacts ++ right.newFacts⟩

/-- Builds the circuit of a constraint, if it has one. -/
def compile? (net : Network) (c : Constraint) : Option (Except CompileError Built) :=
  match c.lower with
  | .ok circuit => (net.build? circuit).map .ok
  | .error e => some (.error e)

theorem live_allocate {net : Network} {id : NodeId} (h : net.Live id) : net.allocate.1.Live id := by
  rcases h with ⟨node, hnode⟩
  exact ⟨node, by rw [node?_allocate, hnode]⟩

theorem Sound.create? {net : Network} {key : NodeKey} (h : net.Sound)
    (hlive : ∀ c ∈ key.children, net.Live c) : net.create? key = some (net.create key) := by
  have hadopt : key.children.foldlM (fun after c => after.modify? c (withParent net.nextId))
      net.allocate.1 = some (key.children.foldl (adopt net.nextId) net.allocate.1) :=
    foldlM_modify? (withParent net.nextId) fun c hc => live_allocate (hlive c hc)
  have hplace : net.nextId.index <
      (key.children.foldl (adopt net.nextId) net.allocate.1).slots.size := by
    have hsize := size_slots_foldl_modify (withParent net.nextId) key.children net.allocate.1
    exact hsize.symm ▸ h.nextId_lt
  unfold nextId at hadopt hplace
  simp only [Network.create?, heightOver?_of_live hlive, compute?_of_live none hlive,
    Option.bind_eq_bind, Option.bind_some, hadopt, if_pos hplace]
  rfl

/-- Interning finds the children of the key, and finds as many references to them as it gives
back. -/
theorem Owned.intern? {net : Network} {held : List NodeId} {key : NodeKey}
    (h : net.Owned (key.children ++ held)) : net.intern? key = some (net.intern key) := by
  have hlive : ∀ c ∈ key.children, net.Live c := fun c hc =>
    h.held_live (List.mem_append_left held hc)
  cases hfind : net.find? key with
  | none =>
    rw [Network.intern?, intern_of_none hfind]
    simp only [hfind]
    exact h.toSound.create? hlive
  | some id =>
    have hgive : key.children.foldlM giveBack? net =
        some (key.children.foldl Network.giveBack net) := by
      refine foldlM_giveBack? fun c hc => ?_
      rcases hlive c hc with ⟨child, hchild⟩
      have hcount := h.refcount hchild
      rw [List.count_append] at hcount
      exact ⟨child, hchild, by omega⟩
    have hthere : (key.children.foldl Network.giveBack net).Live id := by
      rcases h.find?_eq_some_iff.1 hfind with ⟨node, hnode, -⟩
      exact ⟨_, by rw [node?_foldl_giveBack, hnode, Option.map_some]⟩
    simp only [Network.intern?, hfind, hgive, Option.bind_eq_bind, Option.bind_some,
      retain?_of_live hthere, Network.intern]

/-- Building finds all nodes and references that it asks for. -/
theorem Owned.build? {net : Network} {held : List NodeId} (h : net.Owned held) {c : Circuit}
    (hc : c.WellFormed) (hroom : net.HasRoomToBuild c) : net.build? c = some (net.build c) := by
  induction c generalizing net held with
  | leaf op =>
    have hkey : net.Owned ((⟨op, []⟩ : NodeKey).children ++ held) := h
    simp only [Network.build?, hkey.intern?, Option.bind_eq_bind, Option.bind_some]
    rfl
  | unary op arg ih =>
    have harg := h.build hc.2 hroom.1
    have hkey : (net.build arg).network.Owned
        ((⟨op, [(net.build arg).root]⟩ : NodeKey).children ++ held) := harg.owned
    simp only [Network.build?, ih h hc.2 hroom.1, hkey.intern?, Option.bind_eq_bind,
      Option.bind_some]
    rfl
  | binary op left right ihl ihr =>
    have hleft := h.build hc.2.1 hroom.1
    have hright := hleft.owned.build hc.2.2 hroom.2.1
    have hkey : ((net.build left).network.build right).network.Owned
        ((⟨op, [(net.build left).root, ((net.build left).network.build right).root]⟩ :
          NodeKey).children ++ held) := hright.owned.perm (List.Perm.swap _ _ _)
    simp only [Network.build?, ihl h hc.2.1 hroom.1, ihr hleft.owned hc.2.2 hroom.2.1,
      hkey.intern?, Option.bind_eq_bind, Option.bind_some]
    rfl

theorem Owned.compile? {net : Network} {held : List NodeId} (h : net.Owned held) {c : Constraint}
    (hroom : net.HasRoomToCompile c) : net.compile? c = some (net.compile c) := by
  unfold Network.compile? Network.compile
  cases hlower : c.lower with
  | error e => rfl
  | ok circuit =>
    have hlowers := (c.lower_eq_ok_iff circuit).1 hlower
    dsimp only
    rw [h.build? (Formula.Lowers.wellFormed hlowers) (hroom circuit hlowers)]
    rfl

/-! ## Releasing -/

/-- The network without a node; the children of the node have to be there. -/
def discard? (net : Network) (id : NodeId) (node : Node) : Option Network :=
  let left : Network :=
    { net.vacate id with
      free := id :: net.free
      interned := net.interned.erase node.key
      leaves := leaveLeaf net.leaves node.key.op
      dirty := net.dirty.erase ⟨node.height, id⟩ }
  node.key.children.foldlM (fun after c => after.modify? c (withoutParent id)) left

theorem eq_of_discard? {net left : Network} {id : NodeId} {node : Node}
    (h : net.discard? id node = some left) : left = net.discard id node :=
  eq_of_foldlM_modify? h

/-- Gives back one reference to each of the nodes, which have to have them. -/
def releaseAll? (net : Network) (dropped : List FactKey) : List NodeId → Option Released
  | [] => some ⟨net, dropped⟩
  | id :: rest =>
    match _ : net.node? id with
    | none => none
    | some node =>
      if node.refcount = 0 then none
      else if 1 < node.refcount then releaseAll? (net.giveBack id) dropped rest
      else
        match _ : net.discard? id node with
        | none => none
        | some left => releaseAll? left (dropped ++ node.key.op.fact?.toList)
            (node.key.children.reverse ++ rest)
termination_by ids => net.edges + ids.length
decreasing_by
  · simp only [giveBack, List.length_cons]
    rw [edges_modify]
    · omega
    · exact fun _ => rfl
  · have hedges := edges_discard ‹net.node? id = some node›
    rw [← eq_of_discard? ‹net.discard? id node = some left›] at hedges
    simp
    omega

/-- Gives back one reference to a node. -/
def release? (net : Network) (id : NodeId) : Option Released :=
  net.releaseAll? [] [id]

/-- The children of a node whose last reference is given back are there. -/
theorem Owned.discard? {net : Network} {held : List NodeId} {id : NodeId} {node : Node}
    (h : net.Owned held) (hnode : net.node? id = some node) :
    net.discard? id node = some (net.discard id node) := by
  refine foldlM_modify? (withoutParent id) fun c hc => ?_
  rcases h.child_live hnode hc with ⟨child, hchild⟩
  have hne : c ≠ id := by
    rintro rfl
    exact h.not_mem_children_self hnode hc
  exact ⟨child, (node?_vacate net id c).trans (by rw [if_neg hne, hchild])⟩

/-- Releasing finds all nodes and references that it asks for. -/
theorem Owned.releaseAll? {net : Network} {held ids : List NodeId} {dropped : List FactKey}
    (h : net.Owned (ids ++ held)) :
    net.releaseAll? dropped ids = some (net.releaseAll dropped ids) := by
  fun_induction Network.releaseAll net dropped ids with
  | case1 net dropped => rw [Network.releaseAll?]
  | case2 net dropped id rest hnone ih =>
    have hlive : net.Live id := h.held_live (by simp)
    exact (not_live_iff.2 hnone hlive).elim
  | case3 net dropped id rest node hnode hmore ih =>
    have hsome : node.refcount ≠ 0 := by omega
    rw [Network.releaseAll?]
    split
    · next hnone =>
      rw [hnode] at hnone
      cases hnone
    · next same hsame =>
      rw [hnode, Option.some.injEq] at hsame
      rw [← hsame, if_neg hsome, if_pos hmore]
      exact ih (h.giveBack hnode hmore)
  | case4 net dropped id rest node hnode hlast ih =>
    have hsome : node.refcount ≠ 0 := Nat.ne_of_gt (h.refcount_pos hnode)
    have hdiscard := Owned.discard? h hnode
    have howned : (net.discard id node).Owned (node.key.children.reverse ++ rest ++ held) := by
      rw [List.append_assoc]
      exact (h.discard hnode hlast).perm ((List.reverse_perm _).symm.append_right _)
    rw [Network.releaseAll?]
    split
    · next hnone =>
      rw [hnode] at hnone
      cases hnone
    · next same hsame =>
      rw [hnode, Option.some.injEq] at hsame
      subst hsame
      rw [if_neg hsome, if_neg hlast]
      split
      · next hnone =>
        rw [hdiscard] at hnone
        cases hnone
      · next left hleft =>
        rw [hdiscard, Option.some.injEq] at hleft
        rw [← hleft]
        exact ih howned

theorem Owned.release? {net : Network} {held : List NodeId} {id : NodeId}
    (h : net.Owned (id :: held)) : net.release? id = some (net.release id) := by
  have howned : net.Owned ([id] ++ held) := h
  exact howned.releaseAll?

/-! ## Supplying inputs -/

/-- Makes a node pending, which has to be there. -/
def mark? (net : Network) (id : NodeId) : Option Network :=
  match net.node? id with
  | some node => some { net with dirty := net.dirty.insert ⟨node.height, id⟩ }
  | none => none

/-- Supplies a value for a fact; if a leaf follows the fact, it has to be there. -/
def setFact? (net : Network) (key : FactKey) (input : Option FactValue) :
    Option (Network × Bool) :=
  match net.leaves[key]? with
  | none => some (net, false)
  | some id => do
    let epoch := net.epoch + 1
    let node ← net.node? id
    let supplied ← { net with epoch }.modify? id fun node =>
      { node with input, inputEpoch := epoch }
    if node.input = input then some (supplied, false)
    else
      let marked ← supplied.mark? id
      some (marked, true)

theorem mark?_of_live {net : Network} {id : NodeId} (h : net.Live id) :
    net.mark? id = some (net.mark id) := by
  rcases h with ⟨node, hnode⟩
  simp only [mark?, mark, hnode]

theorem foldlM_mark? {ids : List NodeId} {net : Network} (h : ∀ id ∈ ids, net.Live id) :
    ids.foldlM mark? net = some (ids.foldl mark net) := by
  refine foldlM_eq_some_foldl (fun ids net => ∀ id ∈ ids, net.Live id)
    (fun id rest net hlive => ?_) h
  refine ⟨mark?_of_live (hlive id List.mem_cons_self), fun j hj => ?_⟩
  rcases hlive j (List.mem_cons_of_mem _ hj) with ⟨node, hnode⟩
  exact ⟨node, by rw [node?_mark, hnode]⟩

/-- The leaf of a fact is there. -/
theorem Sound.setFact? {net : Network} (h : net.Sound) (key : FactKey) (input : Option FactValue) :
    net.setFact? key input = some (net.setFact key input) := by
  unfold Network.setFact? Network.setFact
  cases hleaf : net.leaves[key]? with
  | none => rfl
  | some id =>
    rcases (h.leaves_iff key id).1 hleaf with ⟨node, hnode, -⟩
    have htimed : ({ net with epoch := net.epoch + 1 } : Network).node? id = some node := hnode
    have hlive : ({ net with epoch := net.epoch + 1 } : Network).Live id := ⟨node, htimed⟩
    have hsupplied : (({ net with epoch := net.epoch + 1 } : Network).modify id fun node =>
        { node with input, inputEpoch := net.epoch + 1 }).Live id := live_modify _ hlive
    simp only [hnode, htimed, Option.bind_eq_bind, Option.bind_some]
    rw [modify?_of_live hlive]
    simp only [Option.bind_some]
    rw [mark?_of_live hsupplied]
    simp only [Option.bind_some]
    split <;> rfl

/-! ## Propagating -/

/-- Computes a node again; its children and its parents have to be there. -/
def recompute? (net : Network) (id : NodeId) (node : Node) (p : Propagation) :
    Option (Network × Propagation) := do
  let value ← net.compute? node.key node.input
  let computed ← net.modify? id fun node => { node with value, evaluations := node.evaluations + 1 }
  if node.value = value then some (computed, { p with recomputed := p.recomputed + 1 })
  else
    let marked ← node.parents.foldlM mark? computed
    some (marked, ⟨p.recomputed + 1, p.changed ++ [id]⟩)

/-- Computes pending nodes, which have to be there and no more than there are rounds. -/
def propagateFor? : (rounds : Nat) → Network → Propagation → Option (Network × Propagation)
  | 0, net, p => if net.dirty.min?.isNone then some (net, p) else none
  | rounds + 1, net, p =>
    match net.dirty.min? with
    | none => some (net, p)
    | some due => do
      let node ← net.node? due.id
      let (after, p) ← { net with dirty := net.dirty.erase due }.recompute? due.id node p
      propagateFor? rounds after p

/-- Computes all that is pending. -/
def propagate? (net : Network) : Option (Network × Propagation) :=
  net.propagateFor? net.slots.size {}

/-- A node can be computed if its children and its parents are there. -/
theorem recompute?_of_live {net : Network} {id : NodeId} {node : Node}
    (hnode : net.node? id = some node) (hchildren : ∀ c ∈ node.key.children, net.Live c)
    (hparents : ∀ c ∈ node.parents, net.Live c) (p : Propagation) :
    net.recompute? id node p = some (net.recompute id node p) := by
  have hmarked : ∀ f, node.parents.foldlM mark? (net.modify id f) =
      some (node.parents.foldl mark (net.modify id f)) := fun f =>
    foldlM_mark? fun c hc => live_modify f (hparents c hc)
  unfold Network.recompute? Network.recompute
  rw [compute?_of_live node.input hchildren]
  simp only [Option.bind_eq_bind, Option.bind_some]
  rw [modify?_of_live ⟨node, hnode⟩]
  simp only [Option.bind_some]
  split
  · rfl
  · rw [hmarked]
    rfl

namespace Progress

variable {start net : Network} {held : List NodeId} {p : Propagation} {done : List NodeId}

/-- A turn finds the node that is due, its children and its parents. -/
theorem recompute? (h : Progress start held net p done) {due : Pending} {node : Node}
    (hnode : net.node? due.id = some node) :
    { net with dirty := net.dirty.erase due }.recompute? due.id node p =
      some (net.turn due node p) := by
  have herased : ∀ j, ({ net with dirty := net.dirty.erase due } : Network).node? j = net.node? j :=
    fun _ => rfl
  refine recompute?_of_live ((herased due.id).trans hnode) (fun c hc => ?_) (fun c hc => ?_) p
  · exact h.owned.child_live hnode hc
  · rcases h.owned.parents hnode hc with ⟨above, habove, -⟩
    exact ⟨above, habove⟩

/-- Propagating finds all nodes that it asks for, and there are enough rounds. -/
theorem propagateFor? {rounds : Nat} (h : Progress start held net p done)
    (hrounds : net.slots.size ≤ rounds + done.length) :
    net.propagateFor? rounds p = some (net.propagateFor rounds p) := by
  induction rounds generalizing net p done with
  | zero =>
    cases hmin : net.dirty.min? with
    | none =>
      rw [propagateFor_of_empty hmin]
      simp only [Network.propagateFor?, hmin, Option.isNone_none, if_true]
    | some due =>
      have hlt := h.ordered.length_lt (Std.TreeSet.min?_eq_some_iff_mem_and_forall.1 hmin).1
      omega
  | succ rounds ih =>
    cases hmin : net.dirty.min? with
    | none =>
      rw [propagateFor_of_empty hmin]
      simp only [Network.propagateFor?, hmin]
    | some due =>
      have hdue := (Std.TreeSet.min?_eq_some_iff_mem_and_forall.1 hmin).1
      rcases h.owned.dirty due hdue with ⟨node, hnode, -⟩
      rw [propagateFor_succ hmin hnode]
      simp only [Network.propagateFor?, hmin, hnode, Option.bind_eq_bind, Option.bind_some,
        h.recompute? hnode]
      refine ih (h.turn hmin hnode) ?_
      rw [(recomputes_turn p hnode).size, List.length_cons]
      omega

end Progress

theorem Owned.propagate? {net : Network} {held : List NodeId} (h : net.Owned held)
    (hcons : net.Consistent) : net.propagate? = some net.propagate :=
  (Progress.init h hcons).propagateFor? (by simp)

end Network

/-! ## Calls -/

namespace Ledger

/-- What a call does, if it needs no fallback. -/
def perform? (l : Ledger) : NetworkCall → Option Ledger
  | .compile c => do
    match ← l.network.compile? c with
    | .ok built => some { l with network := built.network, held := built.root :: l.held }
    | .error _ => some l
  | .retain id => do
    let retained ← l.network.retain? id
    some { l with network := retained, held := id :: l.held }
  | .release id => do
    let released ← l.network.release? id
    some
      { network := released.network
        held := l.held.erase id
        pending := l.pending.filter (· ∉ released.dropped) }
  | .setFact key input => do
    let (supplied, changed) ← l.network.setFact? key input
    some
      { l with
        network := supplied
        pending := if changed then key :: l.pending else l.pending }
  | .propagate => do
    let (settled, _) ← l.network.propagate?
    some { l with network := settled, pending := [] }

/-- No permitted call that there is room for needs a fallback, except for retaining a node that is
missing. -/
theorem Kept.perform? {l : Ledger} (h : l.Kept) {call : NetworkCall} (hpermits : l.Permits call)
    (hroom : l.HasRoom call) (hretain : ∀ id, call = .retain id → l.network.Live id) :
    l.perform? call = some (l.perform call) := by
  cases call with
  | compile c =>
    simp only [Ledger.perform?, Ledger.perform, h.owned.compile? hroom, Option.bind_eq_bind,
      Option.bind_some]
    cases l.network.compile c <;> rfl
  | retain id =>
    have hlive := hretain id rfl
    have hsome : (l.network.node? id).isSome = true := Option.isSome_iff_exists.2 hlive
    simp only [Ledger.perform?, Ledger.perform, Network.retain?_of_live hlive, Option.bind_eq_bind,
      Option.bind_some, hsome, if_true]
  | release id =>
    have howned : l.network.Owned (id :: l.held.erase id) :=
      h.owned.perm (List.perm_cons_erase hpermits)
    simp only [Ledger.perform?, Ledger.perform, howned.release?, Option.bind_eq_bind,
      Option.bind_some]
  | setFact key input =>
    simp only [Ledger.perform?, Ledger.perform, h.owned.toSound.setFact? key input,
      Option.bind_eq_bind, Option.bind_some]
  | propagate =>
    simp only [Ledger.perform?, Ledger.perform, h.owned.propagate? h.consistent,
      Option.bind_eq_bind, Option.bind_some]

end Ledger
end Mandate
