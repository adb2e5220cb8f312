import Mandate.Network.Basic
import Mandate.Network.Circuit

/-!
# Compiling into the network

A circuit is built from its leaves upwards, the left operand before the right one and both before
the operator.  A node that is already there is shared.  A new node takes the place that was freed
last, and has its value at once.

Main definitions:

* `Network.intern`: the node for a key, shared or new.
* `Network.build`: the root for a circuit.
* `Network.compile`: the root for a constraint.
-/

namespace Mandate
namespace Network

/-- The place for a new node. -/
def allocate (net : Network) : Network × NodeId :=
  match net.free with
  | id :: rest => ({ net with free := rest }, id)
  | [] => ({ net with slots := net.slots.push none }, ⟨net.slots.size⟩)

/-- The height of a node over the given children. -/
def heightOver (net : Network) (children : List NodeId) : Nat :=
  children.foldl (fun height id =>
    match net.node? id with
    | some node => max height (node.height + 1)
    | none => height) 0

/-- Enters a node as a parent of a child, once. -/
def adopt (parent : NodeId) (net : Network) (child : NodeId) : Network :=
  net.modify child fun node =>
    { node with parents := if parent ∈ node.parents then node.parents
        else node.parents ++ [parent] }

/-- The index of leaves with a new node. -/
def enterLeaf (leaves : Std.TreeMap FactKey NodeId) (op : Operator) (id : NodeId) :
    Std.TreeMap FactKey NodeId :=
  match op.fact? with
  | some key => leaves.insert key id
  | none => leaves

/-- A new node with the key, and one reference to it. -/
def create (net : Network) (key : NodeKey) : Network × NodeId :=
  let height := net.heightOver key.children
  let value := net.compute key none
  let (net, id) := net.allocate
  let net := key.children.foldl (adopt id) net
  let node : Node :=
    { key, parents := [], height, refcount := 1, value, input := none, inputEpoch := net.epoch,
      evaluations := 1 }
  let net : Network :=
    { net with
      slots := net.slots.setIfInBounds id.index (some node)
      interned := net.interned.insert key id
      leaves := enterLeaf net.leaves key.op id }
  (net, id)

/-- The node for a key, and one reference to it.  The caller hands over one reference to every
child; if the node is already there, it has its own, and these are given back. -/
def intern (net : Network) (key : NodeKey) : Network × NodeId :=
  match net.find? key with
  | some id => ((key.children.foldl giveBack net).retain id, id)
  | none => net.create key

/-- A circuit in the network. -/
structure Built where
  network : Network
  /-- The root; the caller has one reference to it. -/
  root : NodeId
  /-- The facts that are followed for the first time. -/
  newFacts : List FactKey

/-- The fact that a leaf with the operator would be the first to follow. -/
def gained (net : Network) (op : Operator) : List FactKey :=
  match net.find? ⟨op, []⟩ with
  | some _ => []
  | none => op.fact?.toList

/-- Builds a circuit. -/
def build (net : Network) : Circuit → Built
  | .leaf op =>
    let newFacts := net.gained op
    let (net, root) := net.intern ⟨op, []⟩
    ⟨net, root, newFacts⟩
  | .unary op arg =>
    let arg := net.build arg
    let (net, root) := arg.network.intern ⟨op, [arg.root]⟩
    ⟨net, root, arg.newFacts⟩
  | .binary op left right =>
    let left := net.build left
    let right := left.network.build right
    let (net, root) := right.network.intern ⟨op, [left.root, right.root]⟩
    ⟨net, root, left.newFacts ++ right.newFacts⟩

/-- Builds the circuit of a constraint; nothing is built if it has none. -/
def compile (net : Network) (c : Constraint) : Except CompileError Built :=
  match c.lower with
  | .ok circuit => .ok (net.build circuit)
  | .error e => .error e

end Network
end Mandate
