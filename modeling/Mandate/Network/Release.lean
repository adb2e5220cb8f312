import Mandate.Network.Basic

/-!
# Releasing nodes

When the last reference to a node is given back, the node is taken out of the network and gives
back its references to its children, the last child first.

Main definitions:

* `Network.edges`: the references that nodes have to their children.
* `Network.discard`: the network without a node.
* `Network.release`: one reference less to a node, and all that follows from it.
-/

namespace Mandate
namespace Network

/-! ## Counting references to children -/

/-- The references to children that a place holds. -/
def degree : Option Node → Nat
  | some node => node.key.children.length
  | none => 0

/-- The references to children that some places hold. -/
def degrees : List (Option Node) → Nat
  | [] => 0
  | slot :: slots => degree slot + degrees slots

/-- The references to children in the whole network. -/
def edges (net : Network) : Nat :=
  degrees net.slots.toList

theorem degrees_modify {slots : List (Option Node)} {i : Nat} {slot : Option Node}
    (f : Option Node → Option Node) (h : slots[i]? = some slot) :
    degrees (slots.modify i f) + degree slot = degrees slots + degree (f slot) := by
  induction slots generalizing i with
  | nil => simp at h
  | cons x rest ih =>
    cases i with
    | zero =>
      obtain rfl : x = slot := by simpa using h
      simp only [List.modify_zero_cons, degrees]
      omega
    | succ i =>
      have := ih (i := i) (by simpa using h)
      simp only [List.modify_succ_cons, degrees]
      omega

theorem slots_of_node? {net : Network} {id : NodeId} {node : Node} (h : net.node? id = some node) :
    net.slots.toList[id.index]? = some (some node) := by
  simpa [node?, Option.join_eq_some_iff] using h

/-- A change that keeps the key of a node keeps the number of references to children. -/
theorem edges_modify (net : Network) (id : NodeId) {f : Node → Node}
    (hf : ∀ node, (f node).key = node.key) : (net.modify id f).edges = net.edges := by
  unfold edges modify
  rw [Array.toList_modify]
  cases h : net.slots.toList[id.index]? with
  | none =>
    rw [List.modify_eq_self (by simpa using h)]
  | some slot =>
    have hs := degrees_modify (Option.map f) h
    have : degree (slot.map f) = degree slot := by
      cases slot <;> simp [degree, hf]
    omega

/-! ## Releasing -/

/-- The index of leaves without a node. -/
def leaveLeaf (leaves : Std.TreeMap FactKey NodeId) (op : Operator) : Std.TreeMap FactKey NodeId :=
  match op.fact? with
  | some key => leaves.erase key
  | none => leaves

/-- Strikes a node from the parents of a child. -/
def orphan (parent : NodeId) (net : Network) (child : NodeId) : Network :=
  net.modify child fun node => { node with parents := node.parents.filter (· ≠ parent) }

/-- Empties the place of a node. -/
def vacate (net : Network) (id : NodeId) : Network :=
  { net with slots := net.slots.modify id.index fun _ => none }

/-- The network without a node. -/
def discard (net : Network) (id : NodeId) (node : Node) : Network :=
  let net : Network :=
    { net.vacate id with
      free := id :: net.free
      interned := net.interned.erase node.key
      leaves := leaveLeaf net.leaves node.key.op
      dirty := net.dirty.erase ⟨node.height, id⟩ }
  node.key.children.foldl (orphan id) net

theorem edges_foldl_orphan (parent : NodeId) (children : List NodeId) (net : Network) :
    (children.foldl (orphan parent) net).edges = net.edges := by
  induction children generalizing net with
  | nil => rfl
  | cons c rest ih => rw [List.foldl_cons, ih]; exact edges_modify _ _ fun _ => rfl

/-- A node takes its references to children with it. -/
theorem edges_discard {net : Network} {id : NodeId} {node : Node} (h : net.node? id = some node) :
    (net.discard id node).edges + node.key.children.length = net.edges := by
  unfold discard
  rw [edges_foldl_orphan]
  have := degrees_modify (fun _ => none) (slots_of_node? h)
  simp only [edges, vacate, Array.toList_modify]
  simpa [degree] using this

/-- A network after references have been given back. -/
structure Released where
  network : Network
  /-- The facts that are no longer followed, in the order in which their leaves were freed. -/
  dropped : List FactKey

/-- Gives back one reference to each of the nodes, from the front.  Every round either takes one
off the list, or turns a node's references to its children into as many on the list. -/
def releaseAll (net : Network) (dropped : List FactKey) : List NodeId → Released
  | [] => ⟨net, dropped⟩
  | id :: rest =>
    match _ : net.node? id with
    | none => releaseAll net dropped rest
    | some node =>
      if 1 < node.refcount then releaseAll (net.giveBack id) dropped rest
      else releaseAll (net.discard id node) (dropped ++ node.key.op.fact?.toList)
        (node.key.children.reverse ++ rest)
termination_by ids => net.edges + ids.length
decreasing_by
  · simp
  · simp only [giveBack, List.length_cons]
    rw [edges_modify]
    · omega
    · exact fun _ => rfl
  · have := edges_discard ‹net.node? id = some node›
    simp
    omega

/-- Gives back one reference to a node. -/
def release (net : Network) (id : NodeId) : Released :=
  net.releaseAll [] [id]

end Network
end Mandate
