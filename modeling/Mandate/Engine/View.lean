import Mandate.Analysis.Skeleton
import Mandate.Engine.Queries

/-!
# Views of the network

What an operator of the service sees of the network: all productions and nodes as a document, and
every production as an indented tree of its nodes.

Main definitions:

* `Engine.viewJson`: the document.
* `Network.walk`: the nodes below a node, as a tree is read from top to bottom.
* `Engine.render`: the trees.
-/

namespace Mandate

/-- The document of a production. -/
def Production.viewJson (p : Production) : Json :=
  .object [("constraintId", .text p.id.text), ("permId", .text p.constraint.permission.text),
    ("root", .ofNat p.root.index), ("state", p.state.toJson),
    ("evaluated", .bool p.evaluated.isSome), ("transitions", .ofNat p.history.length),
    ("expression", .text p.constraint.body.display)]

/-- The document of a node; only a leaf for a fact has a fact, and an input once it is known. -/
def Node.viewJson (id : NodeId) (node : Node) : Json :=
  let ids (l : List NodeId) : Json := .array (l.map fun id => .ofNat id.index)
  .object ([("id", .ofNat id.index), ("kind", .text node.key.op.label),
    ("key", .text node.key.display), ("height", .ofNat node.height),
    ("value", .text node.value.display), ("refcount", .ofNat node.refcount),
    ("children", ids node.key.children), ("parents", ids node.parents),
    ("evaluations", .ofNat node.evaluations)] ++
    (node.key.op.fact?.map fun key => ("fact", key.toJson)).toList ++
    (node.input.map fun value => ("input", value.toJson)).toList)

namespace Network

/-- A node has more than one reference. -/
def isShared (node : Node) : Bool :=
  1 < node.refcount

/-- The number of shared nodes. -/
def sharedCount (net : Network) : Nat :=
  (net.nodes.filter fun (_, node) => isShared node).length

/-- A place at some level of a tree, with the node that is there. -/
structure Visit where
  level : Nat
  id : NodeId
  node : Option Node

/-- The visits to a node and all nodes below it, a node before its children; `height` bounds the
levels below.  A node that is reached twice is visited twice. -/
def walk (net : Network) : (height level : Nat) → NodeId → List Visit
  | 0, level, id => [⟨level, id, net.node? id⟩]
  | height + 1, level, id =>
    let node := net.node? id
    ⟨level, id, node⟩ ::
      match node with
      | some node => node.key.children.flatMap (net.walk height (level + 1))
      | none => []

/-- The line of a visit; a shared node has a star. -/
def Visit.line (v : Visit) : String :=
  indented v.level <|
    match v.node with
    | none => v.id.display ++ " <missing>"
    | some node =>
      v.id.display ++ (if isShared node then "*" else "") ++ " " ++ node.key.op.label ++ " = " ++
        node.value.display

end Network

namespace Engine

/-- The document of all productions and nodes. -/
def viewJson (e : Engine) : Json :=
  .object [("productions", .array (e.productions.toList.map fun (_, p) => p.viewJson)),
    ("nodes", .array (e.network.nodes.map fun (id, node) => node.viewJson id)),
    ("subscriptions", .array (e.network.subscriptions.map FactKey.toJson)),
    ("sharedNodes", .ofNat e.network.sharedCount)]

/-- The first line of the view. -/
def headline (e : Engine) : String :=
  "activation network: " ++ Decimal.natText e.productions.size ++ " productions, " ++
    Decimal.natText e.network.nodes.length ++ " nodes (" ++
    Decimal.natText e.network.sharedCount ++ " shared), " ++
    Decimal.natText e.network.subscriptions.length ++ " facts"

/-- The visits to the nodes of a production; no way down is longer than there are places. -/
def visits (e : Engine) (p : Production) : List Network.Visit :=
  e.network.walk e.network.slots.size 1 p.root

/-- The lines of a production: the constraint, and the tree of its nodes. -/
def productionLines (e : Engine) (p : Production) : List String :=
  (p.id.text ++ " [" ++ p.state.word ++ "] " ++ p.constraint.body.display) ::
    (e.visits p).map Network.Visit.line

/-- The view as a text, every line with its end. -/
def render (e : Engine) : String :=
  String.join ((e.headline :: e.productions.toList.flatMap fun (_, p) => e.productionLines p).map
    (· ++ "\n"))

end Engine
end Mandate
