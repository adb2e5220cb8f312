import Mandate.Proofs.Network.Building
import Mandate.Proofs.Network.Propagation
import Mandate.Proofs.Network.Releasing

/-!
# The use of a network

Whoever uses a network compiles constraints, retains and releases nodes, supplies inputs and
propagates them.  A ledger keeps the network together with what its user can tell from the answers:
the references that he has got and not given back, and the facts whose input has changed since the
last propagation.  A user who gives back only references that he has keeps the network in order, as
long as they can be counted.

Main results:

- Definitions `NetworkCall`, `Ledger.perform`, `Ledger.run`: the calls, and what they do.
- Definition `Ledger.Honest`: no call gives back a reference that its user does not have.
- Definition `Ledger.HasRoomFor`: no count of references wraps around.
- Definition `Ledger.Kept`: the invariant.
- Theorem `Ledger.Kept.perform`: every permitted call that there is room for keeps it.
- Theorem `Ledger.kept_run`: so does every honest run.
-/

namespace Mandate
namespace Network

/-! ## One more reference -/

theorem sameGraph_retain (net : Network) (id : NodeId) : net.SameGraph (net.retain id) := by
  let more : Node → Node := fun node =>
    { node with refcount := (node.refcount + 1) % net.wrapsAt }
  refine SameGraph.of_map (fun j => if j = id then more else fun node => node)
    (size_slots_modify _ _ _) rfl rfl rfl rfl ?_ ?_
  · intro j
    rw [retain, node?_modify]
    by_cases hj : j = id
    · simp [hj, more]
    · simp [hj]
  · intro j node
    split <;> rfl

/-- Retaining nodes changes no more than their counts. -/
theorem keeps_retain (net : Network) (id : NodeId) : net.Keeps (net.retain id) := by
  intro j node hnode
  rw [retain, node?_modify, hnode]
  by_cases hj : j = id
  · rw [if_pos hj]
    rfl
  · rw [if_neg hj]
    rfl

/-- Retaining a node that is there, and has room, gives one more reference to it. -/
theorem Owned.retain {net : Network} {held : List NodeId} (h : net.Owned held) {id : NodeId}
    (hlive : net.Live id) (hroom : net.HasRoom id) : (net.retain id).Owned (id :: held) := by
  have hsame := sameGraph_retain net id
  refine h.of_sameGraph hsame (h.toSound.sameGraph_of_dirty hsame fun _ hdue => hdue) ?_ ?_
  · intro j after hafter
    rw [Network.retain, node?_modify] at hafter
    by_cases hj : j = id
    · subst hj
      rw [if_pos rfl, Option.map_eq_some_iff] at hafter
      rcases hafter with ⟨node, hnode, rfl⟩
      have hcount := h.refcount hnode
      have hexact : (node.refcount + 1) % net.wrapsAt = node.refcount + 1 :=
        hroom.succ_mod (refcount_of_node? hnode).ge
      rw [List.count_cons_self]
      constructor
      · dsimp only
        omega
      · dsimp only
        omega
    · rw [if_neg hj] at hafter
      have hne : id ≠ j := fun heq => hj heq.symm
      rw [List.count_cons_of_ne hne]
      exact ⟨h.refcount hafter, h.refcount_pos hafter⟩
  · intro j hj
    rcases List.mem_cons.1 hj with rfl | hj
    · exact hlive
    · exact h.held_live hj

/-- Retaining a node that is missing does nothing. -/
theorem retain_of_not_live {net : Network} {id : NodeId} (h : ¬ net.Live id) :
    net.retain id = net :=
  modify_eq_self (by simp [not_live_iff.1 h])

/-! ## What is pending -/

/-- The pending nodes are the leaves of the facts. -/
structure Awaits (net : Network) (facts : List FactKey) : Prop where
  pending_iff : ∀ {id node}, net.node? id = some node →
    ((⟨node.height, id⟩ : Pending) ∈ net.dirty ↔ ∃ fact ∈ facts, node.key.op = .fact fact)
  subscribed : ∀ fact ∈ facts, net.isSubscribed fact = true

namespace Awaits

variable {net : Network} {facts : List FactKey}

theorem of_settled (hsettled : ∀ due, due ∉ net.dirty) : net.Awaits [] :=
  ⟨fun _ => by simp [hsettled], by simp⟩

/-- The same graph with the same pending nodes. -/
theorem sameGraph {after : Network} (h : net.Awaits facts) (hsame : net.SameGraph after)
    (hdirty : after.dirty = net.dirty) : after.Awaits facts := by
  constructor
  · intro id node hnode
    rcases hsame.symm.node? hnode with ⟨old, hold, hkey, hheight, -⟩
    rw [hdirty, ← hheight, ← hkey]
    exact h.pending_iff hold
  · intro fact hfact
    exact (hsame.isSubscribed fact).trans (h.subscribed fact hfact)

/-- More nodes, none of which is pending. -/
theorem mono {after : Network} (h : net.Awaits facts) (hbefore : net.Sound) (hafter : after.Sound)
    (hkeeps : net.Keeps after) (hdirty : after.dirty = net.dirty) : after.Awaits facts := by
  constructor
  · intro id node hnode
    rw [hdirty]
    cases hold : net.node? id with
    | some old =>
      have hcontent := hkeeps.sameContent hold hnode
      rw [hcontent.height, hcontent.key]
      exact h.pending_iff hold
    | none =>
      -- what is pending was there before, and so were the leaves of the facts
      constructor
      · intro hdue
        rcases hbefore.dirty _ hdue with ⟨old, hthere, -⟩
        rw [hold] at hthere
        cases hthere
      · rintro ⟨fact, hfact, hop⟩
        rcases (hbefore.isSubscribed_iff fact).1 (h.subscribed fact hfact) with
          ⟨j, leaf, hleaf, hleafOp⟩
        rcases hkeeps.node? hleaf with ⟨leaf', hleaf', hbare⟩
        have hop' : leaf'.key.op = .fact fact := (Node.eq_of_bare hbare).key ▸ hleafOp
        have hj : j = id := hafter.eq_of_fact hleaf' hnode hop' hop
        rw [← hj, hleaf] at hold
        cases hold
  · intro fact hfact
    rcases (hbefore.isSubscribed_iff fact).1 (h.subscribed fact hfact) with ⟨j, leaf, hleaf, hop⟩
    rcases hkeeps.node? hleaf with ⟨leaf', hleaf', hbare⟩
    exact (hafter.isSubscribed_iff fact).2 ⟨j, leaf', hleaf', (Node.eq_of_bare hbare).key ▸ hop⟩

/-- A new input that differs makes the leaf of its fact pending. -/
theorem setFact (h : net.Awaits facts) (hsound : net.Sound) (key : FactKey)
    (input : Option FactValue) :
    (net.setFact key input).1.Awaits
      (if (net.setFact key input).2 then key :: facts else facts) := by
  have hsame : net.SameGraph (net.setFact key input).1 := hsound.sameGraph_setFact
  have hchanged : (net.setFact key input).2 = true ↔
      net.isSubscribed key = true ∧ net.input key ≠ input := hsound.setFact_changed_iff
  have hmem : ∀ fact, fact ∈ (if (net.setFact key input).2 then key :: facts else facts) ↔
      fact ∈ facts ∨ (fact = key ∧ (net.setFact key input).2 = true) := by
    intro fact
    split
    · next hyes => simp [hyes, or_comm]
    · next hno => simp [hno]
  constructor
  · intro id node hnode
    rcases hsame.symm.node? hnode with ⟨old, hold, hkey, hheight, -⟩
    rw [← hheight, ← hkey, hsound.mem_dirty_setFact_iff, h.pending_iff hold]
    simp only [hmem, or_and_right, exists_or]
    refine or_congr_right ?_
    constructor
    · rintro ⟨leaf, hleaf, -, hop, hne⟩
      have hnodes : old = leaf := Option.some.inj (hold.symm.trans hleaf)
      subst hnodes
      refine ⟨key, ⟨rfl, hchanged.2 ⟨?_, ?_⟩⟩, hop⟩
      · exact (hsound.isSubscribed_iff key).2 ⟨id, old, hold, hop⟩
      · rw [hsound.input_of_node? hold hop]
        exact hne
    · rintro ⟨fact, ⟨rfl, hyes⟩, hop⟩
      have hne := (hchanged.1 hyes).2
      rw [hsound.input_of_node? hold hop] at hne
      exact ⟨old, hold, rfl, hop, hne⟩
  · intro fact hfact
    have hsub : net.isSubscribed fact = true := by
      rcases (hmem fact).1 hfact with hfact | ⟨rfl, hyes⟩
      · exact h.subscribed fact hfact
      · exact (hchanged.1 hyes).1
    exact (hsame.isSubscribed fact).trans hsub

end Awaits

theorem keeps_releaseAll (net : Network) (dropped : List FactKey) (ids : List NodeId) :
    (net.releaseAll dropped ids).network.Keeps net := by
  fun_induction Network.releaseAll net dropped ids with
  | case1 net dropped => exact Keeps.refl net
  | case2 net dropped id rest hnone ih => exact ih
  | case3 net dropped id rest node hnode hmore ih => exact ih.trans (keeps_giveBack net id)
  | case4 net dropped id rest node hnode hlast ih => exact ih.trans (Sound.keeps_discard net id node)

/-- Nodes that are left after releasing others are as pending as they were. -/
theorem mem_dirty_releaseAll (net : Network) (dropped : List FactKey) (ids : List NodeId)
    {due : Pending} (hdue : due ∈ net.dirty)
    (hlive : (net.releaseAll dropped ids).network.Live due.id) :
    due ∈ (net.releaseAll dropped ids).network.dirty := by
  fun_induction Network.releaseAll net dropped ids with
  | case1 net dropped => exact hdue
  | case2 net dropped id rest hnone ih => exact ih hdue hlive
  | case3 net dropped id rest node hnode hmore ih => exact ih hdue hlive
  | case4 net dropped id rest node hnode hlast ih =>
    refine ih (Sound.mem_dirty_discard_iff.2 ⟨hdue, ?_⟩) hlive
    -- the place that is emptied stays empty
    rintro rfl
    rcases (keeps_releaseAll _ _ _).live hlive with ⟨left, hleft⟩
    exact (Sound.node?_discard_cases hleft).1 rfl

/-- A release takes away the pending leaves that it frees. -/
theorem Awaits.release {net : Network} {facts : List FactKey} {id : NodeId} {held : List NodeId}
    (h : net.Awaits facts) (howned : net.Owned (id :: held)) :
    (net.release id).network.Awaits (facts.filter (· ∉ (net.release id).dropped)) := by
  have hreleases := howned.release
  have hmem : ∀ fact, fact ∈ facts.filter (· ∉ (net.release id).dropped) ↔
      fact ∈ facts ∧ (net.release id).network.isSubscribed fact = true := by
    intro fact
    rw [List.mem_filter, decide_eq_true_iff, hreleases.mem_dropped]
    refine and_congr_right fun hfact => ?_
    simp [h.subscribed fact hfact]
  constructor
  · intro j node hnode
    rcases hreleases.keeps.node? hnode with ⟨old, hold, hbare⟩
    have hcontent := Node.eq_of_bare hbare
    have hdirty : (⟨node.height, j⟩ : Pending) ∈ (net.release id).network.dirty ↔
        (⟨node.height, j⟩ : Pending) ∈ net.dirty :=
      ⟨hreleases.dirty _, fun hdue => mem_dirty_releaseAll net [] [id] hdue ⟨node, hnode⟩⟩
    rw [hdirty, ← hcontent.height, h.pending_iff hold, hcontent.key]
    constructor
    · rintro ⟨fact, hfact, hop⟩
      have hsub : (net.release id).network.isSubscribed fact = true :=
        (hreleases.owned.toSound.isSubscribed_iff fact).2 ⟨j, node, hnode, hop⟩
      exact ⟨fact, (hmem fact).2 ⟨hfact, hsub⟩, hop⟩
    · rintro ⟨fact, hfact, hop⟩
      exact ⟨fact, ((hmem fact).1 hfact).1, hop⟩
  · intro fact hfact
    exact ((hmem fact).1 hfact).2

end Network

/-! ## Calls -/

/-- A call of the network. -/
inductive NetworkCall
  | compile (c : Constraint)
  | retain (id : NodeId)
  | release (id : NodeId)
  | setFact (key : FactKey) (input : Option FactValue)
  | propagate

/-- A network, with what its user knows. -/
structure Ledger where
  network : Network := {}
  /-- The references that have been handed out and not given back. -/
  held : List NodeId := []
  /-- The facts whose leaf has had a new input since the last propagation. -/
  pending : List FactKey := []

namespace Ledger

/-- What a call does.  A circuit comes with a reference to its root, and retaining hands out a
reference to a node that is there. -/
def perform (l : Ledger) : NetworkCall → Ledger
  | .compile c =>
    match l.network.compile c with
    | .ok built => { l with network := built.network, held := built.root :: l.held }
    | .error _ => l
  | .retain id =>
    { l with
      network := l.network.retain id
      held := if (l.network.node? id).isSome then id :: l.held else l.held }
  | .release id =>
    { network := (l.network.release id).network
      held := l.held.erase id
      pending := l.pending.filter (· ∉ (l.network.release id).dropped) }
  | .setFact key input =>
    { l with
      network := (l.network.setFact key input).1
      pending := if (l.network.setFact key input).2 then key :: l.pending else l.pending }
  | .propagate => { l with network := l.network.propagate.1, pending := [] }

/-- What calls do, one after the other. -/
def run (l : Ledger) (calls : List NetworkCall) : Ledger :=
  calls.foldl perform l

/-- The user has the reference that the call gives back. -/
def Permits (l : Ledger) : NetworkCall → Prop
  | .release id => id ∈ l.held
  | _ => True

/-- Every call gives back a reference that its user has, if it gives back any. -/
def Honest (l : Ledger) : List NetworkCall → Prop
  | [] => True
  | call :: calls => l.Permits call ∧ (l.perform call).Honest calls

/-- No count wraps around in the call. -/
def HasRoom (l : Ledger) : NetworkCall → Prop
  | .compile c => l.network.HasRoomToCompile c
  | .retain id => l.network.HasRoom id
  | _ => True

/-- No count wraps around in the calls, one after the other. -/
def HasRoomFor (l : Ledger) : List NetworkCall → Prop
  | [] => True
  | call :: calls => l.HasRoom call ∧ (l.perform call).HasRoomFor calls

theorem hasRoomFor_append_iff {l : Ledger} {calls more : List NetworkCall} :
    l.HasRoomFor (calls ++ more) ↔ l.HasRoomFor calls ∧ (l.run calls).HasRoomFor more := by
  induction calls generalizing l with
  | nil => simp [HasRoomFor, run]
  | cons call calls ih =>
    rw [List.cons_append, HasRoomFor, HasRoomFor, ih, and_assoc]
    rfl

theorem perform_compile {l : Ledger} {c : Constraint} {built : Network.Built}
    (h : l.network.compile c = .ok built) :
    l.perform (.compile c) = { l with network := built.network, held := built.root :: l.held } := by
  simp only [perform, h]

theorem held_retain {l : Ledger} {id : NodeId} (hlive : l.network.Live id) :
    (l.perform (.retain id)).held = id :: l.held := by
  rcases hlive with ⟨node, hnode⟩
  simp [perform, hnode]

theorem perform_retain_missing {l : Ledger} {id : NodeId} (h : ¬ l.network.Live id) :
    l.perform (.retain id) = l := by
  simp only [perform, Network.retain_of_not_live h, Network.not_live_iff.1 h, Option.isSome_none,
    Bool.false_eq_true, if_false]

/-- The references are in order, every value is right except where one below it is pending, and the
pending nodes are the leaves that have had a new input. -/
structure Kept (l : Ledger) : Prop where
  owned : l.network.Owned l.held
  consistent : l.network.Consistent
  awaits : l.network.Awaits l.pending

theorem kept_empty : ({} : Ledger).Kept where
  owned := Network.owned_empty
  consistent := by
    intro id node hnode
    simp [Network.node?] at hnode
  awaits := Network.Awaits.of_settled (by simp)

namespace Kept

variable {l : Ledger}

theorem compile (h : l.Kept) {c : Constraint} (hroom : l.HasRoom (.compile c)) :
    (l.perform (.compile c)).Kept := by
  cases hbuilt : l.network.compile c with
  | error reason =>
    simp only [Ledger.perform, hbuilt]
    exact h
  | ok built =>
    rw [perform_compile hbuilt]
    rcases h.owned.compile hbuilt hroom with ⟨circuit, -, hbuilds⟩
    exact ⟨hbuilds.owned, hbuilds.consistent h.consistent,
      h.awaits.mono h.owned.toSound hbuilds.owned.toSound hbuilds.keeps hbuilds.dirty⟩

theorem retain (h : l.Kept) {id : NodeId} (hroom : l.HasRoom (.retain id)) :
    (l.perform (.retain id)).Kept := by
  by_cases hlive : l.network.Live id
  · have hkeeps := l.network.keeps_retain id
    have hsame := l.network.sameGraph_retain id
    refine ⟨?_, ?_, h.awaits.sameGraph hsame rfl⟩
    · rw [held_retain hlive]
      exact h.owned.retain hlive hroom
    · intro j node hnode
      rcases hsame.symm.node? hnode with ⟨old, hold, -⟩
      have hcontent := hkeeps.sameContent hold hnode
      rw [hcontent.value, hcontent.key, hcontent.input, hcontent.height]
      rcases h.consistent hold with hright | hdue
      · left
        rw [hright]
        exact (Network.compute_congr old.input fun c hc =>
          hkeeps.value (h.owned.child_live hold hc)).symm
      · exact Or.inr hdue
  · rw [perform_retain_missing hlive]
    exact h

theorem release (h : l.Kept) {id : NodeId} (hid : id ∈ l.held) :
    (l.perform (.release id)).Kept := by
  have howned : l.network.Owned (id :: l.held.erase id) :=
    h.owned.perm (List.perm_cons_erase hid)
  have hreleases := howned.release
  exact ⟨hreleases.owned, hreleases.consistent h.consistent, h.awaits.release howned⟩

theorem setFact (h : l.Kept) (key : FactKey) (input : Option FactValue) :
    (l.perform (.setFact key input)).Kept :=
  ⟨h.owned.setFact, h.owned.consistent_setFact h.consistent,
    h.awaits.setFact h.owned.toSound key input⟩

theorem propagate (h : l.Kept) : (l.perform .propagate).Kept := by
  have hpropagates := h.owned.propagate h.consistent
  exact ⟨hpropagates.owned, hpropagates.settled.consistent,
    Network.Awaits.of_settled hpropagates.settled.dirty⟩

/-- Every permitted call that there is room for keeps the network in order. -/
theorem perform (h : l.Kept) {call : NetworkCall} (hpermits : l.Permits call)
    (hroom : l.HasRoom call) : (l.perform call).Kept := by
  cases call with
  | compile c => exact h.compile hroom
  | retain id => exact h.retain hroom
  | release id => exact h.release hpermits
  | setFact key input => exact h.setFact key input
  | propagate => exact h.propagate

theorem run (h : l.Kept) {calls : List NetworkCall} (hhonest : l.Honest calls)
    (hroom : l.HasRoomFor calls) : (l.run calls).Kept := by
  induction calls generalizing l with
  | nil => exact h
  | cons call calls ih => exact ih (h.perform hhonest.1 hroom.1) hhonest.2 hroom.2

end Kept

/-- A network whose user gives back what he has, and no more, is in order as long as no count wraps
around. -/
theorem kept_run {calls : List NetworkCall} (hhonest : ({} : Ledger).Honest calls)
    (hroom : ({} : Ledger).HasRoomFor calls) : (({} : Ledger).run calls).Kept :=
  kept_empty.run hhonest hroom

end Ledger
end Mandate
