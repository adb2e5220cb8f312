import Mandate.Proofs.Network.Ledger
import Mandate.Proofs.Network.Sizes

/-!
# Room for references

A count that has wrapped around says nothing about the references to its node.  Every operator of a
circuit that is built adds at most one to one count, and so does every call that retains a node;
nothing else adds to a count.  Calls that ask for fewer references than a count has values therefore
never lack room.

Main results:

- Definition `Counted`: no count exceeds a number.
- Theorems `Counted.build`, `Counted.hasRoomToBuild`: how far building a circuit counts.
- Theorem `Ledger.Kept.hasRoomFor`, `Ledger.hasRoomFor_of_references_lt`: calls that ask for few
  references have room.
-/

namespace Mandate
namespace Network

/-! ## How far counts go -/

/-- No count exceeds the number. -/
def Counted (net : Network) (n : Nat) : Prop :=
  ∀ id node, net.node? id = some node → node.refcount ≤ n

namespace Counted

variable {net : Network} {n : Nat}

theorem empty {wrapsAt : Nat} : ({ wrapsAt } : Network).Counted 0 := by
  intro id node hnode
  simp [node?] at hnode

theorem mono (h : net.Counted n) {m : Nat} (hle : n ≤ m) : net.Counted m :=
  fun id node hnode => (h id node hnode).trans hle

theorem hasRoom (h : net.Counted n) (hn : n + 1 < net.wrapsAt) (id : NodeId) : net.HasRoom id := by
  right
  cases hnode : net.node? id with
  | none =>
    simp only [Network.refcount, hnode]
    omega
  | some node =>
    have hle := h id node hnode
    rw [refcount_of_node? hnode]
    omega

/-- A change to one node that does not count too far. -/
theorem modify (h : net.Counted n) {m : Nat} (hnm : n ≤ m) {id : NodeId} {f : Node → Node}
    (hf : ∀ node, node.refcount ≤ n → (f node).refcount ≤ m) : (net.modify id f).Counted m := by
  intro j node hnode
  rw [node?_modify] at hnode
  by_cases hj : j = id
  · rw [if_pos hj, Option.map_eq_some_iff] at hnode
    rcases hnode with ⟨old, hold, rfl⟩
    exact hf old (h j old hold)
  · rw [if_neg hj] at hnode
    exact (h j node hnode).trans hnm

/-- Interning a key adds one to one count. -/
theorem intern (h : net.Counted n) (hsound : net.Sound) (key : NodeKey) :
    (net.intern key).1.Counted (n + 1) := by
  intro id node hnode
  cases hfind : net.find? key with
  | some shared =>
    rw [node?_intern_of_find? hfind, Option.map_eq_some_iff] at hnode
    rcases hnode with ⟨old, hold, rfl⟩
    have hle := h id old hold
    have hmod := Nat.mod_le (old.refcount - key.children.count id + 1) net.wrapsAt
    simp only [shareReferences]
    split <;> omega
  | none =>
    rw [intern_of_none hfind] at hnode
    rcases hsound.node?_create_cases hnode with ⟨-, rfl⟩ | ⟨old, hold, rfl⟩
    · exact Nat.le_add_left 1 n
    · have hle := h id old hold
      rw [besideNew_refcount]
      omega

/-- Building a circuit adds one for every operator. -/
theorem build (h : net.Counted n) (hsound : net.Sound) {c : Circuit} (hc : c.WellFormed) :
    (net.build c).network.Counted (n + c.size) := by
  induction c generalizing net n with
  | leaf op => exact h.intern hsound _
  | unary op arg ih =>
    have harg := (ih h hsound hc.2).intern (hsound.build hc.2).1 ⟨op, [(net.build arg).root]⟩
    rwa [Nat.add_assoc, Nat.add_comm arg.size 1] at harg
  | binary op left right ihl ihr =>
    have hleft := (hsound.build hc.2.1).1
    have hright := (ihr (ihl h hsound hc.2.1) hleft hc.2.2).intern (hleft.build hc.2.2).1
      ⟨op, [(net.build left).root, ((net.build left).network.build right).root]⟩
    have hsize : n + left.size + right.size + 1 = n + (1 + left.size + right.size) := by omega
    rwa [hsize] at hright

/-- A circuit has room if it has fewer operators than may still be counted. -/
theorem hasRoomToBuild (h : net.Counted n) (hsound : net.Sound) {c : Circuit} (hc : c.WellFormed)
    (hn : n + c.size < net.wrapsAt) : net.HasRoomToBuild c := by
  induction c generalizing net n with
  | leaf op => exact fun id _ => h.hasRoom hn id
  | unary op arg ih =>
    rw [Circuit.size] at hn
    refine ⟨ih h hsound hc.2 (by omega), fun id _ => ?_⟩
    refine (h.build hsound hc.2).hasRoom ?_ id
    rw [wrapsAt_build]
    omega
  | binary op left right ihl ihr =>
    rw [Circuit.size] at hn
    have hleft := (hsound.build hc.2.1).1
    have hcounted := h.build hsound hc.2.1
    refine ⟨ihl h hsound hc.2.1 (by omega), ihr hcounted hleft hc.2.2 ?_, fun id _ => ?_⟩
    · rw [wrapsAt_build]
      omega
    · refine (hcounted.build hleft hc.2.2).hasRoom ?_ id
      rw [wrapsAt_build, wrapsAt_build]
      omega

theorem retain (h : net.Counted n) (id : NodeId) : (net.retain id).Counted (n + 1) :=
  h.modify (Nat.le_succ n) fun _ hle => (Nat.mod_le _ _).trans (Nat.succ_le_succ hle)

/-- Releasing adds to no count. -/
theorem releaseAll (h : net.Counted n) (dropped : List FactKey) (ids : List NodeId) :
    (net.releaseAll dropped ids).network.Counted n := by
  fun_induction Network.releaseAll net dropped ids with
  | case1 net dropped => exact h
  | case2 net dropped id rest hnone ih => exact ih h
  | case3 net dropped id rest node hnode hmore ih =>
    exact ih (h.modify le_rfl fun _ hle => (Nat.sub_le _ _).trans hle)
  | case4 net dropped id rest node hnode hlast ih =>
    refine ih fun j left hleft => ?_
    rcases Sound.node?_discard_cases hleft with ⟨-, old, hold, rfl⟩
    rw [besideGap_refcount]
    exact h j old hold

/-- A change that leaves all counts alone. -/
theorem of_refcount {after : Network} (h : net.Counted n) (hsame : net.SameGraph after)
    (hrefcount : ∀ id, after.refcount id = net.refcount id) : after.Counted n := by
  intro id node hnode
  rcases hsame.symm.node? hnode with ⟨old, hold, -⟩
  rw [← refcount_of_node? hnode, hrefcount, refcount_of_node? hold]
  exact h id old hold

end Counted

end Network

/-! ## Calls that ask for few references -/

/-- The references that a call may add: one for every node of a formula, and one for a node that is
retained. -/
def NetworkCall.references : NetworkCall → Nat
  | .compile c => c.body.nodeCount
  | .retain _ => 1
  | _ => 0

namespace Ledger

/-- The references that some calls may add. -/
def references : List NetworkCall → Nat
  | [] => 0
  | call :: calls => call.references + references calls

namespace Kept

variable {l : Ledger} {n : Nat}

/-- No call changes how far counts go. -/
theorem wrapsAt_perform (h : l.Kept) (call : NetworkCall) :
    (l.perform call).network.wrapsAt = l.network.wrapsAt := by
  cases call with
  | compile c =>
    cases hbuilt : l.network.compile c with
    | error reason => simp only [Ledger.perform, hbuilt]
    | ok built =>
      rw [perform_compile hbuilt, (Network.build_of_compile hbuilt).2]
      exact Network.wrapsAt_build _ _
  | retain id => rfl
  | release id => exact Network.wrapsAt_releaseAll _ _ _
  | setFact key input => exact h.owned.sameGraph_setFact.wrapsAt
  | propagate => exact (h.owned.propagate h.consistent).recomputes.wrapsAt

/-- A call that asks for few references has room. -/
theorem hasRoom (h : l.Kept) (hcounted : l.network.Counted n) {call : NetworkCall}
    (hn : n + call.references < l.network.wrapsAt) : l.HasRoom call := by
  cases call with
  | compile c =>
    intro circuit hlowers
    have hsize := Formula.Lowers.size_le hlowers
    simp only [NetworkCall.references] at hn
    exact hcounted.hasRoomToBuild h.owned.toSound (Formula.Lowers.wellFormed hlowers) (by omega)
  | retain id => exact hcounted.hasRoom hn id
  | release id => trivial
  | setFact key input => trivial
  | propagate => trivial

/-- A call adds no more to any count than it asks for. -/
theorem counted_perform (h : l.Kept) (hcounted : l.network.Counted n) (call : NetworkCall) :
    (l.perform call).network.Counted (n + call.references) := by
  have hsound := h.owned.toSound
  cases call with
  | compile c =>
    cases hbuilt : l.network.compile c with
    | error reason =>
      simp only [Ledger.perform, hbuilt]
      exact hcounted.mono (Nat.le_add_right _ _)
    | ok built =>
      rcases Network.build_of_compile hbuilt with ⟨hlowers, rfl⟩
      rw [perform_compile hbuilt]
      exact (hcounted.build hsound (Formula.Lowers.wellFormed hlowers)).mono
        (Nat.add_le_add_left (Formula.Lowers.size_le hlowers) n)
  | retain id => exact hcounted.retain id
  | release id => exact hcounted.releaseAll [] [id]
  | setFact key input => exact hcounted.of_refcount hsound.sameGraph_setFact hsound.refcount_setFact
  | propagate =>
    have hrecomputes := (h.owned.propagate h.consistent).recomputes
    exact hcounted.of_refcount hrecomputes.sameGraph hrecomputes.refcount

/-- Calls that ask for fewer references than may still be counted have room. -/
theorem hasRoomFor (h : l.Kept) (hcounted : l.network.Counted n) {calls : List NetworkCall}
    (hhonest : l.Honest calls) (hn : n + references calls < l.network.wrapsAt) :
    l.HasRoomFor calls := by
  induction calls generalizing l n with
  | nil => trivial
  | cons call calls ih =>
    rw [references] at hn
    have hfirst : n + call.references < l.network.wrapsAt := by omega
    have hroom := h.hasRoom hcounted hfirst
    refine ⟨hroom, ih (h.perform hhonest.1 hroom) (h.counted_perform hcounted call) hhonest.2 ?_⟩
    rw [h.wrapsAt_perform]
    omega

end Kept

/-- Calls that ask for fewer references than a count has values have room. -/
theorem hasRoomFor_of_references_lt {calls : List NetworkCall}
    (hhonest : ({} : Ledger).Honest calls) (hfew : references calls < Node.countRange) :
    ({} : Ledger).HasRoomFor calls :=
  kept_empty.hasRoomFor .empty hhonest (by simpa using hfew)

end Ledger
end Mandate
