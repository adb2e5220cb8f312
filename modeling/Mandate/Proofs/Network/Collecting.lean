import Mandate.Proofs.Network.Uncounted

/-!
# Releasing collects the garbage

Nodes are counted, but what the counts amount to is reachability: a node lives as long as somebody
has a reference to it or to a node above it.  So a release frees the nodes that can no longer be
reached from the references that are left, and no others.

Main results:

- Theorem `Owned.live_iff`: the nodes that live are those below the references that are held.
- Theorem `Releases.live_iff`, `Releases.mem_dropped_iff`: what a release leaves, and what it
  reports.
- Definition `Ledger.Collected`: counting coincides with reachability, before and after every call.
- Theorem `Ledger.collected_run`: it does in every honest run in which no count wraps around.
- Theorem `Ledger.not_collected_uncounted`: it does not if some references are not counted.
-/

namespace Mandate
namespace Network

/-! ## Reachability -/

section Reaching

variable {net before after : Network} {held : List NodeId} {i j : NodeId}

/-- What can be reached from a node that is there is there. -/
theorem Reaches.live (h : net.Owned held) (hreach : net.Reaches i j) (hlive : net.Live i) :
    net.Live j := by
  induction hreach with
  | refl => exact hlive
  | step hnode hc _ ih => exact ih (h.child_live hnode hc)

/-- A network that keeps all nodes keeps the ways between them. -/
theorem Reaches.mono (hreach : before.Reaches i j) (hkeeps : before.Keeps after) :
    after.Reaches i j := by
  induction hreach with
  | refl => exact .refl _
  | step hnode hc _ ih =>
    rcases hkeeps.node? hnode with ⟨same, hsame, hbare⟩
    exact .step hsame ((Node.eq_of_bare hbare).key ▸ hc) ih

/-- The ways down from a node that is left are left as well. -/
theorem Reaches.of_keeps (hreach : before.Reaches i j) (h : after.Owned held)
    (hkeeps : after.Keeps before) (hlive : after.Live i) : after.Reaches i j := by
  induction hreach with
  | refl => exact .refl _
  | step hnode hc _ ih =>
    rcases hlive with ⟨left, hleft⟩
    have hc' := (hkeeps.sameContent hleft hnode).key ▸ hc
    exact .step hleft hc' (ih (h.child_live hleft hc'))

/-- The nodes that live are those below the references that are held. -/
theorem Owned.live_iff (h : net.Owned held) (id : NodeId) :
    net.Live id ↔ ∃ root ∈ held, net.Reaches root id := by
  constructor
  · exact h.exists_root
  · rintro ⟨root, hroot, hreach⟩
    exact hreach.live h (h.held_live hroot)

end Reaching

/-! ## Releasing -/

namespace Releases

variable {net : Network} {held : List NodeId} {released : Released}

/-- A release leaves the nodes below the references that are left, and no others. -/
theorem live_iff (h : net.Releases held released) (id : NodeId) :
    released.network.Live id ↔ ∃ root ∈ held, net.Reaches root id := by
  rw [h.owned.live_iff]
  constructor
  · rintro ⟨root, hroot, hreach⟩
    exact ⟨root, hroot, hreach.mono h.keeps⟩
  · rintro ⟨root, hroot, hreach⟩
    exact ⟨root, hroot, hreach.of_keeps h.owned h.keeps (h.owned.held_live hroot)⟩

/-- A release reports the facts of the leaves that it frees. -/
theorem mem_dropped_iff (h : net.Releases held released) (hsound : net.Sound) (fact : FactKey) :
    fact ∈ released.dropped ↔ ∃ id node, net.node? id = some node ∧ node.key.op = .fact fact ∧
      ¬ released.network.Live id := by
  rw [h.mem_dropped, hsound.isSubscribed_iff, h.owned.toSound.isSubscribed_iff]
  constructor
  · rintro ⟨⟨id, node, hnode, hop⟩, hgone⟩
    refine ⟨id, node, hnode, hop, ?_⟩
    rintro ⟨left, hleft⟩
    exact hgone ⟨id, left, hleft, by rw [← (h.keeps.sameContent hleft hnode).key, hop]⟩
  · rintro ⟨id, node, hnode, hop, hdead⟩
    refine ⟨⟨id, node, hnode, hop⟩, ?_⟩
    rintro ⟨j, left, hleft, hleftOp⟩
    rcases h.keeps.node? hleft with ⟨same, hsame, hbare⟩
    have hsameOp : same.key.op = .fact fact := (Node.eq_of_bare hbare).key ▸ hleftOp
    have hj : j = id := hsound.eq_of_fact hsame hnode hsameOp hop
    exact hdead (hj ▸ ⟨left, hleft⟩)

end Releases

/-- Without nodes the network is empty. -/
theorem Sound.empty_of_not_live {net : Network} (h : net.Sound) (hdead : ∀ id, ¬ net.Live id) :
    net.size = 0 ∧ net.subscriptions = [] := by
  constructor
  · have hempty : net.interned.isEmpty = true := by
      rw [Std.HashMap.isEmpty_iff_forall_not_mem]
      intro key hmem
      rw [Std.HashMap.mem_iff_isSome_getElem?, Option.isSome_iff_exists] at hmem
      rcases hmem with ⟨id, hid⟩
      rcases (h.interned_iff key id).1 hid with ⟨node, hnode, -⟩
      exact hdead id ⟨node, hnode⟩
    simpa [size, Std.HashMap.isEmpty_eq_size_eq_zero] using hempty
  · rw [List.eq_nil_iff_forall_not_mem]
    intro fact hfact
    rcases (h.isSubscribed_iff fact).1 (mem_subscriptions_iff.1 hfact) with ⟨id, node, hnode, -⟩
    exact hdead id ⟨node, hnode⟩

end Network

namespace Ledger

/-! ## Every state of an honest run -/

/-- Counting references coincides with reachability. -/
structure Collected (l : Ledger) : Prop where
  /-- The nodes that live are those that can be reached from a reference. -/
  live_iff : ∀ id, l.network.Live id ↔ ∃ root ∈ l.held, l.network.Reaches root id
  /-- No call frees a node that can be reached from a reference that is left. -/
  stays : ∀ call, l.Permits call → ∀ root ∈ l.held, root ∈ (l.perform call).held →
    ∀ id node, l.network.Reaches root id → l.network.node? id = some node →
      ∃ node', (l.perform call).network.node? id = some node' ∧ node'.key = node.key
  /-- A release frees all nodes that cannot be reached from a reference that is left. -/
  released : ∀ id ∈ l.held, ∀ j, (l.network.release id).network.Live j ↔
    ∃ root ∈ l.held.erase id, l.network.Reaches root j
  /-- A release reports each fact once. -/
  dropped_nodup : ∀ id ∈ l.held, (l.network.release id).dropped.Nodup
  /-- A release reports the facts of the leaves that it frees. -/
  mem_dropped_iff : ∀ id ∈ l.held, ∀ fact, fact ∈ (l.network.release id).dropped ↔
    ∃ j node, l.network.node? j = some node ∧ node.key.op = .fact fact ∧
      ¬ (l.network.release id).network.Live j
  /-- Without references nothing is left. -/
  empty : l.held = [] → l.network.size = 0 ∧ l.network.subscriptions = []

namespace Kept

variable {l : Ledger}

theorem releases (h : l.Kept) {id : NodeId} (hid : id ∈ l.held) :
    l.network.Releases (l.held.erase id) (l.network.release id) := by
  have howned : l.network.Owned (id :: l.held.erase id) := h.owned.perm (List.perm_cons_erase hid)
  exact howned.release

/-- A node that can be reached from a reference that is left stays. -/
theorem stays (h : l.Kept) {call : NetworkCall} (hpermits : l.Permits call) {root id : NodeId}
    {node : Node} (hroot : root ∈ (l.perform call).held) (hreach : l.network.Reaches root id)
    (hnode : l.network.node? id = some node) :
    ∃ node', (l.perform call).network.node? id = some node' ∧ node'.key = node.key := by
  have hgraph : ∀ {after : Network}, l.network.SameGraph after →
      ∃ node', after.node? id = some node' ∧ node'.key = node.key := by
    intro after hsame
    rcases hsame.node? hnode with ⟨node', hnode', hkey, -⟩
    exact ⟨node', hnode', hkey⟩
  cases call with
  | compile c =>
    cases hbuilt : l.network.compile c with
    | error reason =>
      simp only [Ledger.perform, hbuilt]
      exact ⟨node, hnode, rfl⟩
    | ok built =>
      simp only [Ledger.perform, hbuilt]
      rcases Network.build_of_compile hbuilt with ⟨hlowers, rfl⟩
      have hkeeps := (h.owned.toSound.build (Formula.Lowers.wellFormed hlowers)).2
      rcases hkeeps.node? hnode with ⟨node', hnode', hbare⟩
      exact ⟨node', hnode', (Node.eq_of_bare hbare).key⟩
  | retain id' => exact hgraph (l.network.sameGraph_retain id')
  | setFact key input => exact hgraph h.owned.sameGraph_setFact
  | propagate => exact hgraph (h.owned.propagate h.consistent).recomputes.sameGraph
  | release gone =>
    have hreleases := h.releases hpermits
    rcases (hreleases.live_iff id).2 ⟨root, hroot, hreach⟩ with ⟨left, hleft⟩
    exact ⟨left, hleft, (hreleases.keeps.sameContent hleft hnode).key.symm⟩

theorem collected (h : l.Kept) : l.Collected where
  live_iff := h.owned.live_iff
  stays := fun _ hpermits _ _ hroot _ _ hreach hnode => h.stays hpermits hroot hreach hnode
  released := fun _ hid => (h.releases hid).live_iff
  dropped_nodup := fun _ hid => (h.releases hid).dropped_nodup
  mem_dropped_iff := fun _ hid => (h.releases hid).mem_dropped_iff h.owned.toSound
  empty := by
    intro hheld
    refine h.owned.toSound.empty_of_not_live fun id hlive => ?_
    rcases h.owned.exists_root hlive with ⟨root, hroot, -⟩
    rw [hheld] at hroot
    cases hroot

end Kept

/-- As long as only references that were handed out are given back, and no count wraps around, the
nodes that live are those that can be reached from a reference, and a release frees and reports what
has become unreachable. -/
theorem collected_run (calls : List NetworkCall) (hhonest : ({} : Ledger).Honest calls)
    (hroom : ({} : Ledger).HasRoomFor calls) : (({} : Ledger).run calls).Collected :=
  (kept_run hhonest hroom).collected

/-- One node, to which there are two references for a while. -/
def twoReferences : List NetworkCall :=
  [.compile Scenario.existence, .retain ⟨0⟩, .release ⟨0⟩,
    .setFact (.permissionExists ⟨"p1"⟩) (some (.bool true)), .propagate, .release ⟨0⟩]

/-- When the second reference is given back too, nothing is left. -/
theorem collected_twoReferences : ({} : Ledger).Honest twoReferences ∧
    ({} : Ledger).HasRoomFor twoReferences ∧
      (({} : Ledger).run twoReferences).network.size = 0 ∧
      (({} : Ledger).run twoReferences).network.subscriptions = [] := by
  let first := ({} : Ledger).perform (.compile Scenario.existence)
  have hfirst : ({} : Ledger).Honest [.compile Scenario.existence] := ⟨trivial, trivial⟩
  have hkept : first.Kept := kept_run hfirst (hasRoomFor_of_references_lt hfirst (by decide))
  have hlive : first.network.Live ⟨0⟩ := hkept.owned.held_live (by simp [first, held_existence])
  have hheld : (first.perform (.retain ⟨0⟩)).held = [⟨0⟩, ⟨0⟩] := by
    rw [held_retain hlive, held_existence]
  have hhonest : ({} : Ledger).Honest twoReferences := by
    refine ⟨trivial, trivial, ?_, trivial, trivial, ?_, trivial⟩
    · change (⟨0⟩ : NodeId) ∈ (first.perform (.retain ⟨0⟩)).held
      simp [hheld]
    · change (⟨0⟩ : NodeId) ∈ (first.perform (.retain ⟨0⟩)).held.erase ⟨0⟩
      simp [hheld]
  have hnone : (({} : Ledger).run twoReferences).held = [] := by
    change ((first.perform (.retain ⟨0⟩)).held.erase ⟨0⟩).erase ⟨0⟩ = []
    simp [hheld]
  have hroom : ({} : Ledger).HasRoomFor twoReferences :=
    hasRoomFor_of_references_lt hhonest (by decide)
  exact ⟨hhonest, hroom, (collected_run twoReferences hhonest hroom).empty hnone⟩

/-- A child that is gone can be reached, and does not live. -/
theorem Bereft.not_collected {l : Ledger} (h : l.Bereft) : ¬ l.Collected := by
  intro hcollected
  rcases h.parent with ⟨root, hroot, node, other, hnode, hkey, -⟩
  have hchild : (⟨0⟩ : NodeId) ∈ node.key.children := by
    rw [hkey]
    exact List.mem_cons_self
  exact h.gone ((hcollected.live_iff ⟨0⟩).2 ⟨root, hroot, .step hnode hchild (.refl _)⟩)

/-- Counting does not coincide with reachability if a node that is gone has been retained and the
user takes it that he has a reference, or if a count has wrapped around. -/
theorem not_collected_uncounted :
    (({} : Ledger).Booked stale ∧ ¬ (({} : Ledger).bookAll stale).Collected) ∧
      (({} : Ledger).Honest wrapped ∧ ¬ (({} : Ledger).run wrapped).Collected) :=
  ⟨⟨bereft_stale.1, bereft_stale.2.not_collected⟩,
    bereft_wrapped.1, bereft_wrapped.2.not_collected⟩

end Ledger
end Mandate
