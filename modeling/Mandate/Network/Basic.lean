import Std.Data.HashMap
import Std.Data.TreeMap
import Std.Data.TreeSet
import Mandate.Evaluation
import Mandate.Network.Value

/-!
# The activation network

The circuits of all constraints are kept in one graph.  A node is identified by its operator and
its children, so equal parts of different circuits are one node.  A node counts the references to
it, from other nodes and from outside, and lives while it has any.  A count has 32 bits, and nobody
checks that it does not wrap around.  Leaves that follow a fact are the only inputs.

Main definitions:

* `NodeId`, `NodeKey`, `Node`: nodes and their names.
* `Network`: the graph.
* `Network.node?`, `Network.value`, `Network.find?`: what it holds.
* `Network.compute`: the value that a node should have.
-/

namespace Mandate

/-- The place of a node. -/
@[ext]
structure NodeId where
  index : Nat
  deriving DecidableEq, Hashable, Inhabited

/-- The name of a node. -/
def NodeId.display (id : NodeId) : String :=
  "n" ++ Decimal.natText id.index

/-- What tells nodes apart: the operator, and the children in order. -/
structure NodeKey where
  op : Operator
  children : List NodeId
  deriving DecidableEq, Hashable

/-- The key as an operator of the service reads it. -/
def NodeKey.display (key : NodeKey) : String :=
  match key.children with
  | [] => key.op.label
  | ids => key.op.label ++ "[" ++ String.intercalate "," (ids.map NodeId.display) ++ "]"

/-- A node. -/
structure Node where
  key : NodeKey
  /-- The nodes that have this one as a child, each once. -/
  parents : List NodeId
  /-- The length of the longest way down to a leaf. -/
  height : Nat
  /-- The references to the node, as far as they have been counted; see `Network.wrapsAt`. -/
  refcount : Nat
  value : Value
  /-- The last value that was supplied for the fact that the node follows. -/
  input : Option FactValue
  /-- When the last value was supplied. -/
  inputEpoch : Nat
  /-- How often the value has been computed. -/
  evaluations : Nat
  deriving DecidableEq

/-- The number of values of a count of references, which has 32 bits. -/
def Node.countRange : Nat :=
  0x100000000

/-- A node whose value has to be computed again, with its height. -/
structure Pending where
  height : Nat
  id : NodeId
  deriving DecidableEq

namespace Pending

instance : Ord Pending :=
  ⟨compareLex (compareOn height) (compareOn fun p => p.id.index)⟩

instance : Std.TransOrd Pending :=
  inferInstanceAs (Std.TransCmp (compareLex (compareOn height) (compareOn fun p => p.id.index)))

instance : Std.LawfulEqOrd Pending where
  compare_self := Std.ReflCmp.compare_self
  eq_of_compare := fun {a b} h => by
    obtain ⟨hh, hi⟩ := compareLex_eq_eq.1 h
    replace hh := Std.LawfulEqOrd.eq_of_compare (a := a.height) (b := b.height) hh
    replace hi := Std.LawfulEqOrd.eq_of_compare (a := a.id.index) (b := b.id.index) hi
    cases a; cases b; simp_all [NodeId.ext_iff]

end Pending

/-- The graph of all nodes. -/
structure Network where
  /-- The nodes by place; a freed place is empty. -/
  slots : Array (Option Node) := #[]
  /-- The empty places, the one freed last in front. -/
  free : List NodeId := []
  /-- The nodes by key. -/
  interned : Std.HashMap NodeKey NodeId := ∅
  /-- The leaves by fact. -/
  leaves : Std.TreeMap FactKey NodeId := ∅
  /-- The nodes to compute again, the lowest in front. -/
  dirty : Std.TreeSet Pending := ∅
  /-- Counts the inputs that have been supplied. -/
  epoch : Nat := 0
  /-- A count of references starts again at zero when it reaches this number.  If the number is
  zero, counts have no bound. -/
  wrapsAt : Nat := Node.countRange

namespace Network

/-- The node at a place. -/
def node? (net : Network) (id : NodeId) : Option Node :=
  net.slots[id.index]?.join

/-- The value of the node at a place; nothing is known of a missing node. -/
def value (net : Network) (id : NodeId) : Value :=
  match net.node? id with
  | some node => node.value
  | none => .indeterminate

/-- The references to the node at a place. -/
def refcount (net : Network) (id : NodeId) : Nat :=
  match net.node? id with
  | some node => node.refcount
  | none => 0

/-- The number of nodes. -/
def size (net : Network) : Nat :=
  net.interned.size

/-- The node with a key. -/
def find? (net : Network) (key : NodeKey) : Option NodeId :=
  net.interned[key]?

/-- The leaf that follows a fact. -/
def leaf? (net : Network) (key : FactKey) : Option Node :=
  net.leaves[key]?.bind net.node?

/-- Some leaf follows the fact. -/
def isSubscribed (net : Network) (key : FactKey) : Bool :=
  net.leaves.contains key

/-- The facts that leaves follow, in the order of keys. -/
def subscriptions (net : Network) : List FactKey :=
  net.leaves.keys

/-- The last value that was supplied for a fact. -/
def input (net : Network) : Facts := fun key =>
  (net.leaf? key).bind Node.input

/-- When the last value was supplied for a fact. -/
def inputEpoch? (net : Network) (key : FactKey) : Option Nat :=
  (net.leaf? key).map Node.inputEpoch

/-- The nodes with their places, in order. -/
def nodes (net : Network) : List (NodeId × Node) :=
  net.slots.toList.zipIdx.filterMap fun (slot, i) => slot.map (⟨i⟩, ·)

/-- The value that a node with the key and the input should have. -/
def compute (net : Network) (key : NodeKey) (input : Option FactValue) : Value :=
  match key.op with
  | .fact fact => .ofFact fact input
  | op => op.apply (key.children.map net.value)

/-- Changes the node at a place, if there is one. -/
def modify (net : Network) (id : NodeId) (f : Node → Node) : Network :=
  { net with slots := net.slots.modify id.index (Option.map f) }

/-- One more reference to a node, whose count wraps around. -/
def retain (net : Network) (id : NodeId) : Network :=
  net.modify id fun node => { node with refcount := (node.refcount + 1) % net.wrapsAt }

/-- One reference less to a node, which stays where it is. -/
def giveBack (net : Network) (id : NodeId) : Network :=
  net.modify id fun node => { node with refcount := node.refcount - 1 }

end Network

end Mandate
