import Mandate.Proofs.Network.Heights
import Mandate.Proofs.Network.Strict
import Mandate.Proofs.Network.Uncounted

/-!
# What every use leaves intact

As long as its user gives back no reference that he has not got, and no count wraps around, the ties
between the nodes of a network are in order after every call, and no call runs into a case that the
order of the ties excludes: no node is missing where one is asked for, and no count goes below zero.
The one exception is the user's own: he may ask to retain a node that is not there, which changes
nothing.

Main results:

- Theorem `Owned.mem_parents_iff`: the parents of a node are the nodes that have it as a child.
- Definition `Ledger.Intact`: the order of the ties, and calls that need no fallback.
- Theorem `Ledger.intact_run`: so it is in every honest run in which no count wraps around.
- Theorem `Ledger.not_intact_uncounted`: it is not if there are references that are not counted.
-/

namespace Mandate
namespace Network

/-! ## Parents and positions -/

/-- Every position among the children of a node counts. -/
theorem count_le_uses {net : Network} {p : NodeId} {parent : Node}
    (h : net.node? p = some parent) (id : NodeId) : parent.key.children.count id ≤ net.uses id := by
  rw [← childrenAt_of_node? h]
  exact Finset.single_le_sum (f := fun i => (net.childrenAt ⟨i⟩).count id)
    (fun _ _ => Nat.zero_le _) (Finset.mem_range.2 (lt_size_of_node? h))

/-- The parents of a node are the nodes that have it as a child. -/
theorem Owned.mem_parents_iff {net : Network} {held : List NodeId} (h : net.Owned held)
    {id : NodeId} {node : Node} (hnode : net.node? id = some node) (p : NodeId) :
    p ∈ node.parents ↔ ∃ parent, net.node? p = some parent ∧ id ∈ parent.key.children := by
  constructor
  · intro hp
    rcases h.parents hnode hp with ⟨parent, hparent, hmem, -⟩
    exact ⟨parent, hparent, hmem⟩
  · rintro ⟨parent, hparent, hmem⟩
    rcases h.children hparent hmem with ⟨same, hsame, hp⟩
    rw [hnode, Option.some.injEq] at hsame
    exact hsame ▸ hp

end Network

namespace Ledger

/-! ## Every state of an honest run -/

/-- The ties between the nodes are in order, and no call needs a fallback. -/
structure Intact (l : Ledger) : Prop where
  /-- A node has as many references as child positions and the user hold it, and at least one. -/
  refcount : ∀ id node, l.network.node? id = some node →
    1 ≤ node.refcount ∧ node.refcount = l.network.uses id + l.held.count id
  /-- All children of a node are there. -/
  children : ∀ id node, l.network.node? id = some node → ∀ c ∈ node.key.children, l.network.Live c
  /-- The parents of a node are the nodes that have it as a child. -/
  mem_parents_iff : ∀ id node, l.network.node? id = some node → ∀ p, p ∈ node.parents ↔
    ∃ parent, l.network.node? p = some parent ∧ id ∈ parent.key.children
  /-- A node has each parent once, also one that has it as a child twice. -/
  parents_nodup : ∀ id node, l.network.node? id = some node → node.parents.Nodup
  /-- Leaves have height zero. -/
  height_leaf : ∀ id node, l.network.node? id = some node → node.key.children = [] →
    node.height = 0
  /-- Any other node is one higher than its highest child. -/
  height_above : ∀ id node, l.network.node? id = some node → node.key.children ≠ [] →
    ∃ c ∈ node.key.children, ∃ child, l.network.node? c = some child ∧
      node.height = child.height + 1 ∧ ∀ c' ∈ node.key.children, ∀ child',
        l.network.node? c' = some child' → child'.height ≤ child.height
  /-- No call finds a node missing, takes a reference from a node that has none, or runs out of
  rounds. -/
  strict : ∀ call, l.Permits call → l.HasRoom call →
    (∀ id, call = .retain id → l.network.Live id) → l.perform? call = some (l.perform call)
  /-- If the user asks to retain a node that is missing, nothing changes. -/
  retain_missing : ∀ id, ¬ l.network.Live id → l.perform (.retain id) = l

theorem Kept.intact {l : Ledger} (h : l.Kept) : l.Intact where
  refcount _ _ hnode := ⟨h.owned.refcount_pos hnode, h.owned.refcount hnode⟩
  children _ _ hnode _ hc := h.owned.child_live hnode hc
  mem_parents_iff _ _ hnode := h.owned.mem_parents_iff hnode
  parents_nodup _ _ hnode := h.owned.parents_nodup hnode
  height_leaf _ _ hnode hleaf := by
    rw [h.owned.height hnode, hleaf]
    rfl
  height_above _ _ hnode hne := by
    rw [h.owned.height hnode]
    exact Network.exists_heightOver hne fun c hc => h.owned.child_live hnode hc
  strict _ hpermits hroom hretain := h.perform? hpermits hroom hretain
  retain_missing _ hdead := perform_retain_missing hdead

/-- As long as only references that were handed out are given back, and no count wraps around, the
counts of references, the parents and the heights are exact after every call, and no call needs a
fallback. -/
theorem intact_run (calls : List NetworkCall) (hhonest : ({} : Ledger).Honest calls)
    (hroom : ({} : Ledger).HasRoomFor calls) : (({} : Ledger).run calls).Intact :=
  (kept_run hhonest hroom).intact

/-- A permission that exists, asked for twice. -/
def bothWays : Constraint :=
  ⟨⟨"p2"⟩, .and (.base (.permissionExists ⟨"p1"⟩)) (.base (.permissionExists ⟨"p1"⟩))⟩

/-- The one leaf has two references from its one parent, which gives both back when it is
released. -/
theorem intact_bothWays : ({} : Ledger).Honest [.compile bothWays] ∧
    ({} : Ledger).HasRoomFor [.compile bothWays] ∧
    ∃ root leaf above node, (({} : Ledger).run [.compile bothWays]).held = [root] ∧
      (({} : Ledger).run [.compile bothWays]).network.node? root = some above ∧
      above.key.children = [leaf, leaf] ∧
      (({} : Ledger).run [.compile bothWays]).network.node? leaf = some node ∧
      2 ≤ node.refcount ∧ node.parents.count root = 1 ∧ above.height = node.height + 1 ∧
      (({} : Ledger).run [.compile bothWays]).perform? (.release root) =
        some ((({} : Ledger).run [.compile bothWays]).perform (.release root)) := by
  have hhonest : ({} : Ledger).Honest [.compile bothWays] := ⟨trivial, trivial⟩
  have hroom : ({} : Ledger).HasRoomFor [.compile bothWays] :=
    hasRoomFor_of_references_lt hhonest (by decide)
  have hintact := intact_run _ hhonest hroom
  have hlower : bothWays.lower = .ok (.binary .and (.fact (.permissionExists ⟨"p1"⟩))
      (.fact (.permissionExists ⟨"p1"⟩))) := rfl
  have hbuilt : ({} : Network).compile bothWays = .ok (({} : Network).build (.binary .and
      (.fact (.permissionExists ⟨"p1"⟩)) (.fact (.permissionExists ⟨"p1"⟩)))) := by
    rw [Network.compile, hlower]
  rcases Network.owned_empty.compile hbuilt hroom.1 with ⟨circuit, hlowers, hbuilds⟩
  rw [← Constraint.lower_eq_ok_iff, hlower, Except.ok.injEq] at hlowers
  subst hlowers
  have hrun : ({} : Ledger).run [.compile bothWays] =
      ({} : Ledger).perform (.compile bothWays) := rfl
  rw [hrun, perform_compile (l := {}) hbuilt] at hintact ⊢
  have hunfolds := hbuilds.unfolds
  cases hunfolds with
  | @binary _ leaf other above _ _ _ habove hkey hleaf hother =>
    have hsame : leaf = other := hbuilds.owned.toSound.unfolds_injective hleaf hother
    subst hsame
    have hchildren : above.key.children = [leaf, leaf] := by rw [hkey]
    have hmem : leaf ∈ above.key.children := by
      rw [hchildren]
      exact List.mem_cons_self
    rcases hintact.children _ _ habove leaf hmem with ⟨node, hnode⟩
    refine ⟨hhonest, hroom, _, leaf, above, node, rfl, habove, hchildren, hnode, ?_, ?_, ?_, ?_⟩
    · have huses := Network.count_le_uses habove leaf
      rw [hchildren, List.count_cons_self, List.count_cons_self] at huses
      have hcount := (hintact.refcount _ _ hnode).2
      dsimp only at hcount
      omega
    · exact List.count_eq_one_of_mem (hintact.parents_nodup _ _ hnode)
        ((hintact.mem_parents_iff _ _ hnode _).2 ⟨above, habove, hmem⟩)
    · have hne : above.key.children ≠ [] := by simp [hchildren]
      rcases hintact.height_above _ _ habove hne with ⟨c, hc, child, hchild, hheight, -⟩
      have hleaf : c = leaf := by simpa [hchildren] using hc
      rw [hleaf, hnode, Option.some.injEq] at hchild
      exact hchild ▸ hheight
    · exact hintact.strict _ List.mem_cons_self trivial fun _ h => by cases h

/-- A child is gone. -/
theorem Bereft.not_intact {l : Ledger} (h : l.Bereft) : ¬ l.Intact := by
  intro hintact
  rcases h.parent with ⟨root, -, node, other, hnode, hkey, -⟩
  refine h.gone (hintact.children root node hnode ⟨0⟩ ?_)
  rw [hkey]
  exact List.mem_cons_self

/-- The ties do not stay in order if a node that is gone has been retained and the user takes it
that he has a reference, or if a count has wrapped around.  Retaining a node that is gone needs a
fallback. -/
theorem not_intact_uncounted :
    (({} : Ledger).Booked stale ∧ ¬ (({} : Ledger).bookAll stale).Intact) ∧
      (({} : Ledger).Honest wrapped ∧ ¬ (({} : Ledger).run wrapped).Intact) ∧
      ({} : Ledger).Honest [.compile Scenario.existence, .release ⟨0⟩, .retain ⟨0⟩] ∧
      (({} : Ledger).run [.compile Scenario.existence, .release ⟨0⟩]).perform? (.retain ⟨0⟩) =
        none := by
  refine ⟨⟨bereft_stale.1, bereft_stale.2.not_intact⟩,
    ⟨bereft_wrapped.1, bereft_wrapped.2.not_intact⟩, honest_released ⟨trivial, trivial⟩, ?_⟩
  have hnone := Network.not_live_iff.1 (fresh_released.not_live ⟨0⟩)
  simp only [perform?, Network.retain?, Network.modify?, hnone, Option.bind_eq_bind,
    Option.bind_none]

end Ledger
end Mandate
