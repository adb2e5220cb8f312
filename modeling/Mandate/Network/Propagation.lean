import Mandate.Network.Basic

/-!
# Propagating changes

A fact that changes makes its leaf pending.  Propagation computes pending nodes again, the lowest
first, and a node whose value changes makes its parents pending.  Parents are higher than their
children, so no node is computed twice.

Main definitions:

* `Network.setFact`: a new input for a leaf.
* `Network.propagate`: computes all that is pending.
-/

namespace Mandate

/-- What a propagation did. -/
structure Propagation where
  /-- The number of nodes that were computed. -/
  recomputed : Nat := 0
  /-- The nodes whose value changed, in the order in which they were computed. -/
  changed : List NodeId := []
  deriving DecidableEq

/-- The nodes whose value changed, by place. -/
def Propagation.sortedChanges (p : Propagation) : List NodeId :=
  p.changed.mergeSort fun a b => a.index ≤ b.index

namespace Network

/-- Makes a node pending, if it is there. -/
def mark (net : Network) (id : NodeId) : Network :=
  match net.node? id with
  | some node => { net with dirty := net.dirty.insert ⟨node.height, id⟩ }
  | none => net

/-- Supplies a value for a fact, or says that it is unresolved.  Tells whether a leaf follows the
fact and its input has changed; the leaf notes the time in any case. -/
def setFact (net : Network) (key : FactKey) (input : Option FactValue) : Network × Bool :=
  match net.leaves[key]? with
  | none => (net, false)
  | some id =>
    let epoch := net.epoch + 1
    let net := { net with epoch }
    match net.node? id with
    | none => (net, false)
    | some node =>
      let net := net.modify id fun node => { node with input, inputEpoch := epoch }
      if node.input = input then (net, false) else (net.mark id, true)

/-- Computes a node again. -/
def recompute (net : Network) (id : NodeId) (node : Node) (p : Propagation) :
    Network × Propagation :=
  let value := net.compute node.key node.input
  let net := net.modify id fun node => { node with value, evaluations := node.evaluations + 1 }
  if node.value = value then (net, { p with recomputed := p.recomputed + 1 })
  else (node.parents.foldl mark net, ⟨p.recomputed + 1, p.changed ++ [id]⟩)

/-- Computes pending nodes, at most as many as there are rounds. -/
def propagateFor : (rounds : Nat) → Network → Propagation → Network × Propagation
  | 0, net, p => (net, p)
  | rounds + 1, net, p =>
    match net.dirty.min? with
    | none => (net, p)
    | some due =>
      let net := { net with dirty := net.dirty.erase due }
      match net.node? due.id with
      | none => propagateFor rounds net p
      | some node =>
        let (net, p) := net.recompute due.id node p
        propagateFor rounds net p

/-- Computes all that is pending.  Every node has its turn at most once, so there are no more
rounds than places. -/
def propagate (net : Network) : Network × Propagation :=
  propagateFor net.slots.size net {}

end Network
end Mandate
