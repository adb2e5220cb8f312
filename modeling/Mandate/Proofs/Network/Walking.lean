import Mandate.Engine.View
import Mandate.Proofs.Network.Heights

/-!
# Reading a network as trees

The walk below a node is bounded by the number of places.  In a network whose references are in
order no node is that high, so the bound never cuts a walk short.  The walk follows all children,
visits no place without a node, comes to every node below, and is as long as the circuit is large.

Main results:

- Theorem `Owned.walk_whole`: the recursion of the walk, without a bound.
- Theorem `Owned.node_of_mem_walk`: every visit finds a node.
- Theorem `Owned.exists_mem_walk`: the walk comes to every node below.
- Theorem `Owned.length_walk`: the number of visits.
-/

namespace Mandate
namespace Network
namespace Owned

variable {net : Network} {held : List NodeId} {id : NodeId} {node : Node} {height : Nat}

/-- A walk that may go down far enough visits the node, and then walks below its children. -/
theorem walk_eq (h : net.Owned held) (hnode : net.node? id = some node)
    (hheight : node.height ≤ height) (level : Nat) :
    net.walk height level id =
      ⟨level, id, some node⟩ :: node.key.children.flatMap (net.walk (height - 1) (level + 1)) := by
  cases height with
  | zero =>
    have hleaf : node.key.children = [] := by
      rw [List.eq_nil_iff_forall_not_mem]
      intro c hc
      rcases h.child_live hnode hc with ⟨child, hchild⟩
      have hlt := h.child_height_lt hnode hc hchild
      omega
    rw [walk, hnode, hleaf]
    rfl
  | succ height =>
    simp only [walk, hnode]
    rfl

/-- Whatever the bound is, as long as it is no less than the height, the walk is the same. -/
theorem walk_stable (h : net.Owned held) (hnode : net.node? id = some node) {n m : Nat}
    (hn : node.height ≤ n) (hm : node.height ≤ m) (level : Nat) :
    net.walk n level id = net.walk m level id := by
  induction hheight : node.height using Nat.strong_induction_on generalizing id node n m level with
  | _ height ih =>
    rw [h.walk_eq hnode hn, h.walk_eq hnode hm]
    refine congrArg (List.cons _) (List.flatMap_congr fun c hc => ?_)
    rcases h.child_live hnode hc with ⟨child, hchild⟩
    have hlt := h.child_height_lt hnode hc hchild
    exact ih child.height (by omega) hchild (by omega) (by omega) (level + 1) rfl

/-- The number of places never cuts a walk short. -/
theorem walk_whole (h : net.Owned held) (hnode : net.node? id = some node) (level : Nat) :
    net.walk net.slots.size level id =
      ⟨level, id, some node⟩ ::
        node.key.children.flatMap (net.walk net.slots.size (level + 1)) := by
  have hsize := h.height_lt_size hnode
  rw [h.walk_eq hnode (Nat.le_of_lt hsize)]
  refine congrArg (List.cons _) (List.flatMap_congr fun c hc => ?_)
  rcases h.child_live hnode hc with ⟨child, hchild⟩
  have hlt := h.child_height_lt hnode hc hchild
  exact h.walk_stable hchild (by omega) (by omega) (level + 1)

/-- Every visit finds a node. -/
theorem node_of_mem_walk (h : net.Owned held) (hnode : net.node? id = some node)
    (hheight : node.height ≤ height) {level : Nat} {v : Visit}
    (hv : v ∈ net.walk height level id) :
    ∃ found, v.node = some found ∧ net.node? v.id = some found := by
  induction hbelow : node.height using Nat.strong_induction_on
    generalizing id node height level with
  | _ n ih =>
    rw [h.walk_eq hnode hheight] at hv
    rcases List.mem_cons.1 hv with rfl | hv
    · exact ⟨node, rfl, hnode⟩
    · rcases List.mem_flatMap.1 hv with ⟨c, hc, hv⟩
      rcases h.child_live hnode hc with ⟨child, hchild⟩
      have hlt := h.child_height_lt hnode hc hchild
      exact ih child.height (by omega) hchild (by omega) hv rfl

/-- The walk comes to every node below. -/
theorem exists_mem_walk (h : net.Owned held) {j : NodeId} (hreach : net.Reaches id j)
    (hnode : net.node? id = some node) (hheight : node.height ≤ height) (level : Nat) :
    ∃ v ∈ net.walk height level id, v.id = j := by
  induction hreach generalizing node height level with
  | refl id =>
    rw [h.walk_eq hnode hheight]
    exact ⟨_, List.mem_cons_self, rfl⟩
  | @step id c j here hhere hc _ ih =>
    rw [hnode, Option.some.injEq] at hhere
    subst hhere
    rcases h.child_live hnode hc with ⟨child, hchild⟩
    have hlt := h.child_height_lt hnode hc hchild
    rcases ih hchild (show child.height ≤ height - 1 by omega) (level + 1) with ⟨v, hv, hid⟩
    rw [h.walk_eq hnode hheight]
    exact ⟨v, List.mem_cons_of_mem _ (List.mem_flatMap.2 ⟨c, hc, hv⟩), hid⟩

/-- A walk has as many visits as the circuit has operators. -/
theorem length_walk (h : net.Owned held) {c : Circuit} (hc : net.Unfolds id c)
    (hheight : c.height ≤ height) (level : Nat) :
    (net.walk height level id).length = c.size := by
  induction hc generalizing height level with
  | @leaf id node op hnode hkey =>
    have hsame := h.height_of_unfolds (.leaf hnode hkey) hnode
    rw [h.walk_eq hnode (hsame ▸ hheight), hkey]
    rfl
  | @unary id a node op arg hnode hkey harg ih =>
    have hsame := h.height_of_unfolds (.unary hnode hkey harg) hnode
    rw [h.walk_eq hnode (hsame ▸ hheight), hkey]
    rw [Circuit.height] at hheight
    simp only [List.flatMap_cons, List.flatMap_nil, List.append_nil, List.length_cons, Circuit.size]
    rw [ih (by omega), Nat.add_comm]
  | @binary id l r node op left right hnode hkey hleft hright ihl ihr =>
    have hsame := h.height_of_unfolds (.binary hnode hkey hleft hright) hnode
    rw [h.walk_eq hnode (hsame ▸ hheight), hkey]
    rw [Circuit.height] at hheight
    simp only [List.flatMap_cons, List.flatMap_nil, List.append_nil, List.length_cons,
      List.length_append, Circuit.size]
    rw [ihl (by omega), ihr (by omega)]
    omega

end Owned
end Network
end Mandate
