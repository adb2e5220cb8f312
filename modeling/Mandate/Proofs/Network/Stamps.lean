import Mandate.Proofs.Network.Building
import Mandate.Proofs.Network.Propagation
import Mandate.Proofs.Network.Releasing

/-!
# Times of inputs

The network counts the inputs that are supplied, and every leaf notes the count at its last one.  No
leaf is ahead of the count, so an input that is supplied later than a given count is noted with a
greater one.  Building and releasing circuits leaves the inputs of facts that stay followed as they
are, with their times.

Main results:

- Definition `Stamped`: no node is ahead of the count.
- Theorems `Stamped.build`, `Stamped.of_keeps`, `Stamped.setFact`, `Recomputes.stamped`: every
  operation keeps it.
- Definition `KeepsInputs`: a change leaves the inputs of facts that stay followed alone.
- Theorem `KeepsInputs.of_keeps`: adding nodes and then taking nodes out does so.
-/

namespace Mandate
namespace Network

/-! ## The count -/

/-- No node has an input from later than the last one. -/
def Stamped (net : Network) : Prop :=
  ∀ id node, net.node? id = some node → node.inputEpoch ≤ net.epoch

theorem stamped_empty {wrapsAt : Nat} : ({ wrapsAt } : Network).Stamped := by
  intro id node hnode
  simp [node?] at hnode

namespace Stamped

variable {net after : Network}

theorem inputEpoch?_le (h : net.Stamped) {key : FactKey} {time : Nat}
    (htime : net.inputEpoch? key = some time) : time ≤ net.epoch := by
  unfold inputEpoch? leaf? at htime
  rw [Option.map_eq_some_iff] at htime
  rcases htime with ⟨leaf, hleaf, rfl⟩
  rcases Option.bind_eq_some_iff.1 hleaf with ⟨id, -, hnode⟩
  exact h id leaf hnode

/-- Nodes that are left keep their times. -/
theorem of_keeps (h : net.Stamped) (hkeeps : after.Keeps net) (hepoch : after.epoch = net.epoch) :
    after.Stamped := by
  intro id node hnode
  rcases hkeeps.node? hnode with ⟨old, hold, hbare⟩
  rw [hepoch, ← (Node.eq_of_bare hbare).inputEpoch]
  exact h id old hold

/-- A new node has the present time. -/
theorem intern (h : net.Stamped) (hsound : net.Sound) (key : NodeKey) :
    (net.intern key).1.Stamped := by
  intro id node hnode
  rw [epoch_intern]
  cases hfind : net.find? key with
  | some shared =>
    rw [node?_intern_of_find? hfind, Option.map_eq_some_iff] at hnode
    rcases hnode with ⟨old, hold, rfl⟩
    exact h id old hold
  | none =>
    rw [intern_of_none hfind] at hnode
    rcases hsound.node?_create_cases hnode with ⟨-, rfl⟩ | ⟨old, hold, rfl⟩
    · exact Nat.le_refl net.epoch
    · rw [(Node.eq_of_bare (net.bare_besideNew key id old)).inputEpoch]
      exact h id old hold

theorem build (h : net.Stamped) (hsound : net.Sound) {c : Circuit} (hc : c.WellFormed) :
    (net.build c).network.Stamped := by
  induction c generalizing net with
  | leaf op => exact h.intern hsound _
  | unary op arg ih => exact (ih h hsound hc.2).intern (hsound.build hc.2).1 _
  | binary op left right ihl ihr =>
    have hleft := (hsound.build hc.2.1).1
    exact (ihr (ihl h hsound hc.2.1) hleft hc.2.2).intern (hleft.build hc.2.2).1 _

theorem setFact (h : net.Stamped) (hsound : net.Sound) {key : FactKey}
    {input : Option FactValue} : (net.setFact key input).1.Stamped := by
  intro id node hnode
  rw [hsound.node?_setFact, Option.map_eq_some_iff] at hnode
  rcases hnode with ⟨old, hold, rfl⟩
  have hbefore := h id old hold
  rw [hsound.epoch_setFact]
  by_cases hop : old.key.op = .fact key
  · rw [Node.supplied_of_eq hop, if_pos ((hsound.isSubscribed_iff key).2 ⟨id, old, hold, hop⟩)]
  · rw [Node.supplied_of_ne hop]
    split <;> omega

end Stamped

theorem Recomputes.stamped {before after : Network} (h : before.Recomputes after)
    (hbefore : before.Stamped) : after.Stamped := by
  intro id node hnode
  have hsame := h.nodes id
  rw [hnode, Option.map_some, eq_comm, Option.map_eq_some_iff] at hsame
  rcases hsame with ⟨old, hold, heq⟩
  rw [h.epoch, ← (Node.eq_of_unevaluated heq).inputEpoch]
  exact hbefore id old hold

/-! ## Inputs that stay -/

/-- Facts that are followed before and after the change have the same inputs, supplied at the same
times. -/
structure KeepsInputs (before after : Network) : Prop where
  input : ∀ fact, before.isSubscribed fact = true → after.isSubscribed fact = true →
    after.input fact = before.input fact
  inputEpoch? : ∀ fact, before.isSubscribed fact = true → after.isSubscribed fact = true →
    after.inputEpoch? fact = before.inputEpoch? fact

theorem KeepsInputs.refl (net : Network) : net.KeepsInputs net :=
  ⟨fun _ _ _ => rfl, fun _ _ _ => rfl⟩

/-- The leaf of a followed fact is kept with what it holds. -/
theorem Keeps.bare_leaf? {before after : Network} (h : before.Keeps after) (hbefore : before.Sound)
    (hafter : after.Sound) {fact : FactKey} (hsub : before.isSubscribed fact = true) :
    (after.leaf? fact).map Node.bare = (before.leaf? fact).map Node.bare := by
  rcases (hbefore.isSubscribed_iff fact).1 hsub with ⟨id, leaf, hnode, hop⟩
  rcases h.node? hnode with ⟨leaf', hnode', hbare⟩
  have hop' : leaf'.key.op = .fact fact := (Node.eq_of_bare hbare).key ▸ hop
  rw [hbefore.leaf?_eq_some_iff.2 ⟨id, hnode, hop⟩, hafter.leaf?_eq_some_iff.2 ⟨id, hnode', hop'⟩,
    Option.map_some, Option.map_some, hbare]

theorem input_eq_of_bare {before after : Network} {fact : FactKey}
    (h : (after.leaf? fact).map Node.bare = (before.leaf? fact).map Node.bare) :
    after.input fact = before.input fact := by
  have hinput := congrArg (fun leaf => leaf.bind Node.input) h
  rwa [Option.bind_map, Option.bind_map] at hinput

theorem inputEpoch?_eq_of_bare {before after : Network} {fact : FactKey}
    (h : (after.leaf? fact).map Node.bare = (before.leaf? fact).map Node.bare) :
    after.inputEpoch? fact = before.inputEpoch? fact := by
  have htime := congrArg (Option.map Node.inputEpoch) h
  rwa [Option.map_map, Option.map_map] at htime

/-- What is kept from a network, and later only added to or released from, has its inputs. -/
theorem KeepsInputs.of_keeps {before built after : Network} (hbuilt : before.Keeps built)
    (hleft : after.Keeps built) (hbefore : before.Sound) (hmiddle : built.Sound)
    (hafter : after.Sound) : before.KeepsInputs after := by
  have hleaf : ∀ fact, before.isSubscribed fact = true → after.isSubscribed fact = true →
      (after.leaf? fact).map Node.bare = (before.leaf? fact).map Node.bare := by
    intro fact hsub hsub'
    rw [← hleft.bare_leaf? hafter hmiddle hsub']
    exact hbuilt.bare_leaf? hbefore hmiddle hsub
  exact ⟨fun fact hsub hsub' => input_eq_of_bare (hleaf fact hsub hsub'),
    fun fact hsub hsub' => inputEpoch?_eq_of_bare (hleaf fact hsub hsub')⟩

end Network
end Mandate
