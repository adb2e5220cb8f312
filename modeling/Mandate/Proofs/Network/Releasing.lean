import Mandate.Proofs.Network.Unfolding

/-!
# Releasing references

Giving back a reference takes out the nodes that nobody refers to any more and nothing else.  The
loop works on a list of references that are still to be given back; as long as it runs, they count
as held outside.

Main results:

- Definition `Releasing`: the state of the loop, compared with the network at its start.
- Theorem `Releasing.giveBack`, `Releasing.discard`: one round of the loop.
- Theorem `Owned.release`: after the loop, the references that were not given back are in order, and
  the facts that are reported are those that are no longer followed.
-/

namespace Mandate
namespace Network

namespace Sound

variable {net : Network}

/-- Discarding a leaf ends the following of its fact. -/
theorem isSubscribed_discard_iff (h : net.Sound) {id : NodeId} {gone : Node}
    (hgone : net.node? id = some gone) (fact : FactKey) :
    (net.discard id gone).isSubscribed fact = true ↔
      net.isSubscribed fact = true ∧ gone.key.op ≠ .fact fact := by
  rw [(h.discard hgone).isSubscribed_iff, h.isSubscribed_iff]
  simp only [exists_node?_discard_iff id gone fun key => key.op = .fact fact]
  constructor
  · intro hleaf
    rcases hleaf with ⟨j, hne, old, hold, hop⟩
    exact ⟨⟨j, old, hold, hop⟩, fun hgoneOp => hne (h.eq_of_fact hold hgone hop hgoneOp)⟩
  · intro hleaf
    rcases hleaf with ⟨⟨j, node, hnode, hop⟩, hgoneOp⟩
    refine ⟨j, ?_, node, hnode, hop⟩
    intro hj
    rw [hj, hgone, Option.some.injEq] at hnode
    exact hgoneOp (hnode ▸ hop)

end Sound

theorem keeps_giveBack (net : Network) (id : NodeId) : (net.giveBack id).Keeps net := by
  intro j node hnode
  rw [giveBack, node?_modify] at hnode
  by_cases hj : j = id
  · rw [if_pos hj, Option.map_eq_some_iff] at hnode
    rcases hnode with ⟨old, hold, rfl⟩
    rw [hold]
    rfl
  · rw [if_neg hj] at hnode
    rw [hnode]
    rfl

/-- The last reference to a leaf takes the leaf out and nothing else. -/
theorem release_leaf {net : Network} {id : NodeId} {node : Node} (hnode : net.node? id = some node)
    (hlast : ¬ 1 < node.refcount) (hleaf : node.key.children = []) :
    (net.release id).network = net.discard id node := by
  rw [release, releaseAll]
  split
  · next hnone =>
    rw [hnode] at hnone
    cases hnone
  · next same hsame =>
    obtain rfl : node = same := Option.some.inj (hnode.symm.trans hsame)
    simp [hlast, hleaf, releaseAll]

/-- In a part of a network that keeps its children, all values are still right. -/
theorem Consistent.of_keeps {before after : Network} {held : List NodeId} (h : before.Consistent)
    (howned : after.Owned held) (hkeeps : after.Keeps before)
    (hdirty : ∀ id node, after.node? id = some node →
      ⟨node.height, id⟩ ∈ before.dirty → ⟨node.height, id⟩ ∈ after.dirty) :
    after.Consistent := by
  intro id node hnode
  rcases hkeeps.node? hnode with ⟨old, hold, hbare⟩
  have hsame := Node.eq_of_bare hbare
  rcases h hold with hright | hpending
  · left
    rw [← hsame.value, ← hsame.key, ← hsame.input, hright]
    refine compute_congr old.input fun c hc => ?_
    exact hkeeps.value (howned.child_live hnode (hsame.key ▸ hc))
  · right
    rw [hsame.height] at hpending
    exact hdirty id node hnode hpending

/-! ## One round of the loop -/

/-- The state of the loop that gives back the references `ids`, compared with the network at its
start; the references `held` stay. -/
structure Releasing (start : Network) (held : List NodeId) (net : Network)
    (dropped : List FactKey) (ids : List NodeId) : Prop where
  owned : net.Owned (ids ++ held)
  keeps : net.Keeps start
  consistent : start.Consistent → net.Consistent
  dirty : ∀ due ∈ net.dirty, due ∈ start.dirty
  epoch : net.epoch = start.epoch
  dropped_nodup : dropped.Nodup
  dropped_or_subscribed : ∀ fact,
    fact ∈ dropped ∨ net.isSubscribed fact = true ↔ start.isSubscribed fact = true
  not_subscribed : ∀ fact ∈ dropped, ¬ net.isSubscribed fact = true

namespace Releasing

variable {start net : Network} {held ids : List NodeId} {dropped : List FactKey} {id : NodeId}
  {node : Node}

theorem init (h : start.Owned (ids ++ held)) : Releasing start held start [] ids where
  owned := h
  keeps := Keeps.refl start
  consistent := id
  dirty := fun _ hdue => hdue
  epoch := rfl
  dropped_nodup := List.nodup_nil
  dropped_or_subscribed := by simp
  not_subscribed := by simp

/-- A round that finds more than one reference. -/
theorem giveBack (h : Releasing start held net dropped (id :: ids))
    (hnode : net.node? id = some node) (hmore : 1 < node.refcount) :
    Releasing start held (net.giveBack id) dropped ids := by
  have howned : (net.giveBack id).Owned (ids ++ held) := h.owned.giveBack hnode hmore
  have hkeeps := keeps_giveBack net id
  constructor
  · exact howned
  · exact hkeeps.trans h.keeps
  · intro hcons
    exact Consistent.of_keeps (h.consistent hcons) howned hkeeps fun _ _ _ hpending => hpending
  · exact h.dirty
  · exact h.epoch
  · exact h.dropped_nodup
  · exact h.dropped_or_subscribed
  · exact h.not_subscribed

/-- A round that finds the last reference. -/
theorem discard (h : Releasing start held net dropped (id :: ids))
    (hnode : net.node? id = some node) (hlast : ¬ 1 < node.refcount) :
    Releasing start held (net.discard id node) (dropped ++ node.key.op.fact?.toList)
      (node.key.children.reverse ++ ids) := by
  have hgone : (net.discard id node).Owned (node.key.children ++ (ids ++ held)) :=
    h.owned.discard hnode hlast
  have howned : (net.discard id node).Owned (node.key.children.reverse ++ ids ++ held) := by
    rw [List.append_assoc]
    exact hgone.perm ((List.reverse_perm _).symm.append_right _)
  have hkeeps := Sound.keeps_discard net id node
  have hsub := h.owned.isSubscribed_discard_iff hnode
  -- the fact of the discarded leaf, if it follows one
  have hfact : ∀ fact, fact ∈ node.key.op.fact?.toList ↔ node.key.op = .fact fact :=
    fun _ => Operator.mem_fact?_iff
  have hfollows : ∀ fact, node.key.op = .fact fact → net.isSubscribed fact = true :=
    fun fact hop => (h.owned.toSound.isSubscribed_iff fact).2 ⟨id, node, hnode, hop⟩
  constructor
  · exact howned
  · exact hkeeps.trans h.keeps
  · intro hcons
    refine Consistent.of_keeps (h.consistent hcons) howned hkeeps fun j left hleft hpending => ?_
    refine Sound.mem_dirty_discard_iff.2 ⟨hpending, ?_⟩
    intro heq
    have hj : j = id := congrArg Pending.id heq
    exact (Sound.node?_discard_cases hleft).1 hj
  · intro due hdue
    exact h.dirty due (Sound.mem_dirty_discard_iff.1 hdue).1
  · rw [discard_frame]
    exact h.epoch
  · refine List.nodup_append.2 ⟨h.dropped_nodup, ?_, ?_⟩
    · cases node.key.op.fact? <;> simp
    · rintro fact hold _ hnew rfl
      exact h.not_subscribed fact hold (hfollows fact ((hfact fact).1 hnew))
  · intro fact
    rw [← h.dropped_or_subscribed, List.mem_append, hfact, hsub]
    constructor
    · intro hdropped
      rcases hdropped with (hold | hop) | ⟨hfollowed, -⟩
      · exact Or.inl hold
      · exact Or.inr (hfollows fact hop)
      · exact Or.inr hfollowed
    · intro hdropped
      rcases hdropped with hold | hfollowed
      · exact Or.inl (Or.inl hold)
      · by_cases hop : node.key.op = .fact fact
        · exact Or.inl (Or.inr hop)
        · exact Or.inr ⟨hfollowed, hop⟩
  · intro fact hmem hfollowed
    rw [hsub] at hfollowed
    rcases List.mem_append.1 hmem with hold | hnew
    · exact h.not_subscribed fact hold hfollowed.1
    · exact hfollowed.2 ((hfact fact).1 hnew)

/-- The loop goes on until all references are given back. -/
theorem releaseAll (h : Releasing start held net dropped ids) :
    Releasing start held (net.releaseAll dropped ids).network
      (net.releaseAll dropped ids).dropped [] := by
  fun_induction Network.releaseAll net dropped ids with
  | case1 net dropped => exact h
  | case2 net dropped id rest hnone ih =>
    have hlive : net.Live id := h.owned.held_live (by simp)
    exact (not_live_iff.2 hnone hlive).elim
  | case3 net dropped id rest node hnode hmore ih => exact ih (h.giveBack hnode hmore)
  | case4 net dropped id rest node hnode hlast ih => exact ih (h.discard hnode hlast)

end Releasing

/-! ## Releasing a reference -/

theorem wrapsAt_releaseAll (net : Network) (dropped : List FactKey) (ids : List NodeId) :
    (net.releaseAll dropped ids).network.wrapsAt = net.wrapsAt := by
  fun_induction Network.releaseAll net dropped ids with
  | case1 net dropped => rfl
  | case2 net dropped id rest hnone ih => exact ih
  | case3 net dropped id rest node hnode hmore ih => exact ih
  | case4 net dropped id rest node hnode hlast ih => rw [ih, discard_frame]

/-- What giving back a reference does to a network whose references are in order. -/
structure Releases (net : Network) (held : List NodeId) (released : Released) : Prop where
  owned : released.network.Owned held
  keeps : released.network.Keeps net
  consistent : net.Consistent → released.network.Consistent
  dirty : ∀ due ∈ released.network.dirty, due ∈ net.dirty
  epoch : released.network.epoch = net.epoch
  wrapsAt : released.network.wrapsAt = net.wrapsAt
  dropped_nodup : released.dropped.Nodup
  mem_dropped : ∀ fact, fact ∈ released.dropped ↔
    net.isSubscribed fact = true ∧ ¬ released.network.isSubscribed fact = true
  subscribed : ∀ fact, released.network.isSubscribed fact = true → net.isSubscribed fact = true

/-- Giving back a reference that is held leaves the other references in order. -/
theorem Owned.release {net : Network} {id : NodeId} {held : List NodeId}
    (h : net.Owned (id :: held)) : net.Releases held (net.release id) := by
  have hinit : Releasing net held net [] [id] := Releasing.init h
  have hend : Releasing net held (net.release id).network (net.release id).dropped [] :=
    hinit.releaseAll
  refine ⟨hend.owned, hend.keeps, hend.consistent, hend.dirty, hend.epoch,
    wrapsAt_releaseAll net [] [id], hend.dropped_nodup, ?_, ?_⟩
  · intro fact
    rw [← hend.dropped_or_subscribed]
    constructor
    · intro hmem
      exact ⟨Or.inl hmem, hend.not_subscribed fact hmem⟩
    · rintro ⟨hor, hnot⟩
      exact hor.resolve_right hnot
  · intro fact hfollowed
    exact (hend.dropped_or_subscribed fact).1 (Or.inr hfollowed)

end Network
end Mandate
