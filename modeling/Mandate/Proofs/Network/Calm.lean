import Mandate.Proofs.Network.Surplus

/-!
# Calm nodes

A node is computed again only after the change of a node that lists it among its parents.  If no
leaf of a fact is found by going down that way, and nothing that is pending, the node is calm: its
value never changes again.  What feeds a node is settled when the node is created, and surplus
releases can only take from it.  So a calm node stays calm as long as it is there, in any use.

Main results:

- Definition `Calm`: no change can come up to the node.
- Definition `Stills`: a step from one network to another disturbs no calm node.
- Theorem `Calm.stills`: a calm node that is still there is still calm.
- Theorem `Ledger.stills_perform`: every call is such a step.
- Theorem `Ledger.value_of_calm`: a calm node keeps its value as long as it is there.
-/

namespace Mandate
namespace Network

/-- A change of the first node makes the second one pending. -/
def Feeds (net : Network) (id parent : NodeId) : Prop :=
  ∃ node, net.node? id = some node ∧ parent ∈ node.parents

/-- Neither the node nor any node that a change could come up from follows a fact or waits. -/
inductive Calm (net : Network) : NodeId → Prop
  | intro {id : NodeId} {node : Node} : net.node? id = some node →
      (∀ fact, node.key.op ≠ .fact fact) → ¬ net.Waits id →
      (∀ j, net.Feeds j id → Calm net j) → Calm net id

section Calm

variable {net : Network} {id : NodeId}

theorem Calm.live (h : net.Calm id) : net.Live id := by
  cases h with
  | intro hnode _ _ _ => exact ⟨_, hnode⟩

theorem Calm.op_ne_fact (h : net.Calm id) {node : Node} (hnode : net.node? id = some node)
    (fact : FactKey) : node.key.op ≠ .fact fact := by
  cases h with
  | intro hnode' hop _ _ => exact Option.some.inj (hnode'.symm.trans hnode) ▸ hop fact

theorem Calm.not_waits (h : net.Calm id) : ¬ net.Waits id := by
  cases h with
  | intro _ _ hwaits _ => exact hwaits

theorem Calm.of_feeds (h : net.Calm id) {j : NodeId} (hfeeds : net.Feeds j id) : net.Calm j := by
  cases h with
  | intro _ _ _ hbelow => exact hbelow j hfeeds

theorem Feeds.live {j : NodeId} (h : net.Feeds j id) : net.Live j := by
  rcases h with ⟨node, hnode, -⟩
  exact ⟨node, hnode⟩

/-- Only children feed a node. -/
theorem Sound.mem_children_of_feeds (h : net.Sound) {j : NodeId} (hfeeds : net.Feeds j id)
    {node : Node} (hnode : net.node? id = some node) : j ∈ node.key.children := by
  rcases hfeeds with ⟨child, hchild, hparent⟩
  rcases h.parents hchild hparent with ⟨above, habove, hmem, -⟩
  exact Option.some.inj (habove.symm.trans hnode) ▸ hmem

end Calm

/-! ## Steps that disturb no calm node -/

/-- What is there before and after has the same key and gains no child that feeds it, and calm nodes
do not come to wait and keep their values. -/
structure Stills (before after : Network) : Prop where
  key : ∀ {id old new}, before.node? id = some old → after.node? id = some new → new.key = old.key
  feeds : ∀ {j id}, before.Live id → after.Live id → after.Feeds j id → before.Feeds j id
  still : ∀ {id}, before.Calm id → after.Live id →
    ¬ after.Waits id ∧ after.value id = before.value id

/-- A calm node that is still there is still calm. -/
theorem Calm.stills {before after : Network} {id : NodeId} (h : before.Calm id)
    (hstep : before.Stills after) (hlive : after.Live id) : after.Calm id := by
  induction h with
  | @intro id node hnode hop hwaits hbelow ih =>
    have hcalm : before.Calm id := .intro hnode hop hwaits hbelow
    rcases hlive with ⟨new, hnew⟩
    refine .intro hnew ?_ (hstep.still hcalm ⟨new, hnew⟩).1 fun j hfeeds => ?_
    · rw [hstep.key hnode hnew]
      exact hop
    · exact ih j (hstep.feeds ⟨node, hnode⟩ ⟨new, hnew⟩ hfeeds) hfeeds.live

namespace Stills

theorem refl (net : Network) : net.Stills net where
  key hold hnew := congrArg Node.key (Option.some.inj (hnew.symm.trans hold))
  feeds _ _ hfeeds := hfeeds
  still hcalm _ := ⟨hcalm.not_waits, rfl⟩

/-- Two steps are one if no place is emptied by the first and filled again by the second. -/
theorem trans {a b c : Network} (hab : a.Stills b) (hbc : b.Stills c)
    (hlive : ∀ {id}, a.Live id → c.Live id → b.Live id) : a.Stills c where
  key := by
    intro id old new hold hnew
    rcases hlive ⟨old, hold⟩ ⟨new, hnew⟩ with ⟨mid, hmid⟩
    exact (hbc.key hmid hnew).trans (hab.key hold hmid)
  feeds := by
    intro j id hbefore hafter hfeeds
    have hmid := hlive hbefore hafter
    exact hab.feeds hbefore hmid (hbc.feeds hmid hafter hfeeds)
  still := by
    intro id hcalm hafter
    have hmid := hlive hcalm.live hafter
    have hlast := hbc.still (hcalm.stills hab hmid) hafter
    exact ⟨hlast.1, hlast.2.trans (hab.still hcalm hmid).2⟩

/-- A step that changes neither keys nor parents. -/
theorem of_sameGraph {before after : Network} (hsame : before.SameGraph after)
    (hstill : ∀ {id}, before.Calm id →
      ¬ after.Waits id ∧ after.value id = before.value id) : before.Stills after where
  key := by
    intro id old new hold hnew
    rcases hsame.node? hold with ⟨same, hnode, hkey, -⟩
    exact Option.some.inj (hnode.symm.trans hnew) ▸ hkey
  feeds := by
    rintro j id - - ⟨child, hchild, hparent⟩
    rcases hsame.symm.node? hchild with ⟨old, hold, -, -, hparents⟩
    exact ⟨old, hold, hparents ▸ hparent⟩
  still hcalm _ := hstill hcalm

/-- A step that changes references only. -/
theorem of_values {before after : Network} (hsame : before.SameGraph after)
    (hvalue : ∀ {id}, before.Live id → after.value id = before.value id)
    (hdirty : after.dirty = before.dirty) : before.Stills after := by
  refine of_sameGraph hsame fun hcalm => ⟨?_, hvalue hcalm.live⟩
  rw [Waits, hdirty]
  exact hcalm.not_waits

end Stills

/-! ## Single operations -/

namespace Sound

variable {net : Network}

theorem stills_create (h : net.Sound) (key : NodeKey) : net.Stills (net.create key).1 where
  key hold hnew := ((h.keeps_create key).sameContent hold hnew).key
  feeds := by
    rintro j id hbefore - ⟨child, hchild, hparent⟩
    rcases h.node?_create_cases hchild with ⟨-, rfl⟩ | ⟨old, hold, rfl⟩
    · cases hparent
    · rcases mem_parents_besideNew_iff.1 hparent with hparent | ⟨hid, -⟩
      · exact ⟨old, hold, hparent⟩
      · exact (hbefore.ne h.node?_nextId hid).elim
  still := by
    intro id hcalm _
    refine ⟨?_, (h.keeps_create key).value hcalm.live⟩
    rw [Waits, create_frame]
    exact hcalm.not_waits

theorem stills_intern (h : net.Sound) (key : NodeKey) : net.Stills (net.intern key).1 := by
  cases hfind : net.find? key with
  | some id =>
    exact .of_values (sameGraph_intern hfind) (h.keeps_intern key).value (dirty_intern net key)
  | none =>
    rw [intern_of_none hfind]
    exact h.stills_create key

theorem stills_discard (net : Network) (id : NodeId) (gone : Node) :
    net.Stills (net.discard id gone) where
  key hold hnew := ((keeps_discard net id gone).sameContent hnew hold).key.symm
  feeds := by
    rintro j p - - ⟨child, hchild, hparent⟩
    rcases node?_discard_cases hchild with ⟨-, old, hold, rfl⟩
    exact ⟨old, hold, (mem_parents_besideGap_iff.1 hparent).1⟩
  still := by
    rintro p hcalm hafter
    refine ⟨?_, ((keeps_discard net id gone).value hafter).symm⟩
    rintro ⟨due, hdue, rfl⟩
    exact hcalm.not_waits ⟨due, (mem_dirty_discard_iff.1 hdue).1, rfl⟩

/-- A new input makes only the leaf of its fact pending. -/
theorem stills_setFact (h : net.Sound) (key : FactKey) (input : Option FactValue) :
    net.Stills (net.setFact key input).1 := by
  refine .of_sameGraph h.sameGraph_setFact fun hcalm => ⟨?_, h.value_setFact _⟩
  rintro ⟨due, hdue, rfl⟩
  rcases h.mem_dirty_setFact_iff.1 hdue with hold | ⟨leaf, hleaf, -, hop, -⟩
  · exact hcalm.not_waits ⟨due, hold, rfl⟩
  · exact hcalm.op_ne_fact hleaf key hop

/-- Only nodes that wait are computed, and only nodes that they feed come to wait. -/
theorem stills_turn {due : Pending} {node : Node} (hdue : due ∈ net.dirty)
    (hnode : net.node? due.id = some node) (p : Propagation) :
    net.Stills (net.turn due node p).1 := by
  refine .of_sameGraph (recomputes_turn p hnode).sameGraph fun {id} hcalm => ⟨?_, ?_⟩
  · rintro ⟨other, hother, rfl⟩
    rcases (mem_dirty_turn_iff p).1 hother with ⟨hold, -⟩ | ⟨-, hparent, -⟩
    · exact hcalm.not_waits ⟨other, hold, rfl⟩
    · exact (hcalm.of_feeds ⟨node, hnode, hparent⟩).not_waits ⟨due, hdue, rfl⟩
  · rw [value_turn p hnode, if_neg]
    rintro rfl
    exact hcalm.not_waits ⟨due, hdue, rfl⟩

/-! ## Calls -/

theorem stills_build (h : net.Sound) {c : Circuit} (hc : c.WellFormed) :
    net.Stills (net.build c).network := by
  induction c generalizing net with
  | leaf op => exact h.stills_intern _
  | unary op arg ih =>
    rcases h.build hc.2 with ⟨hsound, hkeeps⟩
    exact (ih h hc.2).trans (hsound.stills_intern _) fun hlive _ => hkeeps.live hlive
  | binary op left right ihl ihr =>
    rcases h.build hc.2.1 with ⟨hleft, hkeepsLeft⟩
    rcases hleft.build hc.2.2 with ⟨hright, hkeepsRight⟩
    have hboth := (ihl h hc.2.1).trans (ihr hleft hc.2.2) fun hlive _ => hkeepsLeft.live hlive
    exact hboth.trans (hright.stills_intern _) fun hlive _ =>
      (hkeepsLeft.trans hkeepsRight).live hlive

theorem stills_releaseAll (net : Network) (dropped : List FactKey) (ids : List NodeId) :
    net.Stills (net.releaseAll dropped ids).network := by
  fun_induction Network.releaseAll net dropped ids with
  | case1 net dropped => exact .refl net
  | case2 net dropped id rest hnone ih => exact ih
  | case3 net dropped id rest node hnode hmore ih =>
    have hsame := net.sameGraph_giveBack id
    have hstep : net.Stills (net.giveBack id) := .of_values hsame
      (fun hlive => ((net.keeps_giveBack id).value (hsame.live hlive)).symm) rfl
    exact hstep.trans ih fun _ hlive => (keeps_releaseAll _ _ _).live hlive
  | case4 net dropped id rest node hnode hlast ih =>
    exact (stills_discard net id node).trans ih fun _ hlive => (keeps_releaseAll _ _ _).live hlive

/-- A propagation keeps the graph and disturbs no calm node. -/
theorem stills_propagate (h : net.Sound) :
    net.SameGraph net.propagate.1 ∧ net.Stills net.propagate.1 := by
  have hend := h.exhausts.invariant
    (fun after _ done => after.Ordered done ∧ net.SameGraph after ∧ net.Stills after)
    (fun hkeeps => hkeeps.1.sound)
    (fun {after p done due node} hkeeps hmin hnode => by
      rcases hkeeps with ⟨hordered, hsame, hstills⟩
      have hdue := (Std.TreeSet.min?_eq_some_iff_mem_and_forall.1 hmin).1
      exact ⟨hordered.turn hmin hnode p, hsame.trans (recomputes_turn p hnode).sameGraph,
        hstills.trans (stills_turn hdue hnode p) fun hlive _ => hsame.live hlive⟩)
    ⟨Ordered.init h, .refl net, .refl net⟩
  rcases hend with ⟨done, ⟨-, hkeeps⟩, -⟩
  exact hkeeps

end Sound
end Network

namespace Ledger

variable {l : Ledger} {id : NodeId}

/-- No call disturbs a calm node, whether the call is permitted or not. -/
theorem stills_perform (h : l.network.Sound) (call : NetworkCall) :
    l.network.Stills (l.perform call).network := by
  cases call with
  | compile c =>
    rcases l.network_compile c with heq | ⟨circuit, hc, heq⟩
    · exact heq ▸ .refl l.network
    · exact heq ▸ h.stills_build hc
  | retain id =>
    exact .of_values (l.network.sameGraph_retain id) (l.network.keeps_retain id).value rfl
  | release id => exact Network.Sound.stills_releaseAll l.network [] [id]
  | setFact key input => exact h.stills_setFact key input
  | propagate => exact h.stills_propagate.2

/-- The node is there after each of the calls. -/
def Remains (l : Ledger) (id : NodeId) : List NetworkCall → Prop
  | [] => True
  | call :: calls => (l.perform call).network.Live id ∧ (l.perform call).Remains id calls

/-- A calm node keeps its value as long as it is there. -/
theorem value_of_calm (h : l.network.Sound) (hcalm : l.network.Calm id) {calls : List NetworkCall}
    (hremains : l.Remains id calls) : (l.run calls).network.value id = l.network.value id := by
  induction calls generalizing l with
  | nil => rfl
  | cons call calls ih =>
    rcases hremains with ⟨hlive, hremains⟩
    have hstep := stills_perform h call
    have hvalue := ih (sound_perform h call) (hcalm.stills hstep hlive) hremains
    exact hvalue.trans (hstep.still hcalm hlive).2

end Ledger
end Mandate
