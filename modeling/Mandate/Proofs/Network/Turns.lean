import Mandate.Proofs.Network.Uncounted

/-!
# Which nodes a propagation computes

Propagation computes a node when it is pending.  Pending at the start are the leaves with a new
input; what becomes pending later has a child whose value has changed.  Together with the order of
the turns this tells which nodes are computed, whatever was compiled, retained or released before.

Main results:

- Definition `Exhausts`: the loop that goes on while something is pending, without a bound.
- Theorem `Ordered.exhausts`: the loop ends, before the bound is reached.
- Definition `Counts`: the nodes that have had their turn are computed once each.
- Definition `Turns`: the nodes that have had their turn are those that had to.
- Theorem `Turns.turn`: one turn keeps that.
- Definition `Ledger.Exact`: what one propagation computes, reports and leaves.
- Theorem `Ledger.exact_run`: in every honest run in which no count wraps around.
- Theorem `Ledger.not_exact_uncounted`: otherwise values may be left that are not right.
-/

namespace Mandate
namespace Network

/-! ## The loop -/

/-- The loop that computes what is pending until nothing is, and how it ends. -/
inductive Exhausts : Network → Propagation → Network × Propagation → Prop
  | done {net : Network} {p : Propagation} : net.dirty.min? = none → Exhausts net p (net, p)
  | missing {net : Network} {p : Propagation} {due : Pending} {result : Network × Propagation} :
      net.dirty.min? = some due → net.node? due.id = none →
      Exhausts { net with dirty := net.dirty.erase due } p result → Exhausts net p result
  | turn {net : Network} {p : Propagation} {due : Pending} {node : Node}
      {result : Network × Propagation} :
      net.dirty.min? = some due → net.node? due.id = some node →
      Exhausts (net.turn due node p).1 (net.turn due node p).2 result → Exhausts net p result

/-- The loop ends, and the bound does not cut it short. -/
theorem Ordered.exhausts {net : Network} {done : List NodeId} (h : net.Ordered done)
    {rounds : Nat} (hrounds : net.slots.size ≤ rounds + done.length) (p : Propagation) :
    Exhausts net p (net.propagateFor rounds p) := by
  induction rounds generalizing net p done with
  | zero =>
    cases hmin : net.dirty.min? with
    | none => exact .done hmin
    | some due =>
      have hlt := h.length_lt (Std.TreeSet.min?_eq_some_iff_mem_and_forall.1 hmin).1
      omega
  | succ rounds ih =>
    cases hmin : net.dirty.min? with
    | none =>
      rw [propagateFor_of_empty hmin]
      exact .done hmin
    | some due =>
      have hdue := (Std.TreeSet.min?_eq_some_iff_mem_and_forall.1 hmin).1
      rcases h.sound.dirty due hdue with ⟨node, hnode, -⟩
      rw [propagateFor_succ hmin hnode]
      refine .turn hmin hnode (ih (h.turn hmin hnode p) ?_ _)
      rw [(recomputes_turn p hnode).size, List.length_cons]
      omega

theorem Sound.exhausts {net : Network} (h : net.Sound) :
    Exhausts net {} net.propagate :=
  (Ordered.init h).exhausts (by simp) {}

/-! ## Counting the turns -/

/-- The nodes `done` have been computed, once for each time they are named, and no others. -/
structure Counts (start net : Network) (p : Propagation) (done : List NodeId) : Prop where
  recomputed : p.recomputed = done.length
  evaluations : ∀ {id node}, start.node? id = some node →
    ∃ node', net.node? id = some node' ∧ node'.evaluations = node.evaluations + done.count id

theorem recomputed_turn (net : Network) (due : Pending) (node : Node) (p : Propagation) :
    (net.turn due node p).2.recomputed = p.recomputed + 1 := by
  unfold turn recompute
  dsimp only
  split <;> rfl

namespace Counts

variable {start net : Network} {p : Propagation} {done : List NodeId} {due : Pending} {node : Node}

theorem init (start : Network) : Counts start start {} [] where
  recomputed := rfl
  evaluations := fun hnode => ⟨_, hnode, by simp⟩

/-- One turn counts for the node that is due. -/
theorem turn (h : Counts start net p done) (hnode : net.node? due.id = some node) :
    Counts start (net.turn due node p).1 (net.turn due node p).2 (due.id :: done) where
  recomputed := by rw [recomputed_turn, h.recomputed, List.length_cons]
  evaluations := by
    intro id old hold
    rcases h.evaluations hold with ⟨now, hnow, hcount⟩
    rw [node?_turn p hnode]
    by_cases hid : id = due.id
    · have hnodes : node = now := Option.some.inj (hnode.symm.trans (hid ▸ hnow))
      rw [if_pos hid, hid, List.count_cons_self]
      refine ⟨_, rfl, ?_⟩
      dsimp only
      rw [hnodes, hcount, hid]
      rfl
    · rw [if_neg hid, List.count_cons_of_ne (Ne.symm hid)]
      exact ⟨now, hnow, hcount⟩

end Counts

/-! ## Turns -/

/-- A node waits for its turn. -/
def Waits (net : Network) (id : NodeId) : Prop :=
  ∃ due ∈ net.dirty, due.id = id

/-- Some child of the node had another value at the start. -/
def Stirred (start net : Network) (id : NodeId) : Prop :=
  ∃ node, start.node? id = some node ∧ ∃ c ∈ node.key.children, net.value c ≠ start.value c

/-- The nodes `done` have been computed once each since the start.  They and the nodes that wait are
those that waited at the start and those with a child that has changed. -/
structure Turns (start net : Network) (p : Propagation) (done : List NodeId) : Prop where
  recomputed : p.recomputed = done.length
  evaluations : ∀ {id node}, start.node? id = some node →
    ∃ node', net.node? id = some node' ∧ node'.evaluations = node.evaluations + done.count id
  changed_nodup : p.changed.Nodup
  done_or_waits_iff : ∀ id, id ∈ done ∨ net.Waits id ↔ start.Waits id ∨ Stirred start net id

theorem changed_turn (net : Network) (due : Pending) (node : Node) (p : Propagation) :
    (net.turn due node p).2.changed = p.changed ∨
      (net.turn due node p).2.changed = p.changed ++ [due.id] := by
  unfold turn recompute
  dsimp only
  split
  · exact Or.inl rfl
  · exact Or.inr rfl

namespace Turns

variable {start net : Network} {held : List NodeId} {p : Propagation} {done : List NodeId}
  {due : Pending} {node : Node}

theorem counts (h : Turns start net p done) : Counts start net p done :=
  ⟨h.recomputed, h.evaluations⟩

theorem init (start : Network) : Turns start start {} [] where
  recomputed := rfl
  evaluations := (Counts.init start).evaluations
  changed_nodup := List.nodup_nil
  done_or_waits_iff := by
    intro id
    simp [Stirred]

/-- After the turn of a node its parents wait if its value has changed. -/
theorem waits_turn (howned : net.Owned held) (hdue : due ∈ net.dirty)
    (hnode : net.node? due.id = some node) (p : Propagation) (id : NodeId) :
    (id = due.id ∨ (net.turn due node p).1.Waits id) ↔ net.Waits id ∨
      (node.value ≠ net.compute node.key node.input ∧ id ∈ node.parents) := by
  constructor
  · rintro (rfl | ⟨other, hother, rfl⟩)
    · exact Or.inl ⟨due, hdue, rfl⟩
    · rcases (mem_dirty_turn_iff p).1 hother with ⟨hold, -⟩ | ⟨hne, hparent, -⟩
      · exact Or.inl ⟨other, hold, rfl⟩
      · exact Or.inr ⟨hne, hparent⟩
  · rintro (⟨other, hother, rfl⟩ | ⟨hne, hparent⟩)
    · by_cases hsame : other = due
      · exact Or.inl (congrArg Pending.id hsame)
      · exact Or.inr ⟨other, (mem_dirty_turn_iff p).2 (Or.inl ⟨hother, hsame⟩), rfl⟩
    · rcases howned.parents hnode hparent with ⟨above, habove, -⟩
      refine Or.inr ⟨⟨above.height, id⟩, (mem_dirty_turn_iff p).2 (Or.inr ?_), rfl⟩
      exact ⟨hne, hparent, above, habove, rfl⟩

/-- After the turn of a node its parents have a child that has changed if its value has. -/
theorem stirred_turn (h : Progress start held net p done) (hdue : due ∈ net.dirty)
    (hnode : net.node? due.id = some node) (id : NodeId) :
    Stirred start (net.turn due node p).1 id ↔ Stirred start net id ∨
      (node.value ≠ net.compute node.key node.input ∧ id ∈ node.parents) := by
  have hvalue := value_turn p hnode
  -- before its turn the node has the value from the start
  have hbefore : net.value due.id = start.value due.id :=
    h.untouched due.id (h.ordered.not_done hdue)
  have hold : node.value = start.value due.id := by
    rw [← value_of_node? hnode, hbefore]
  constructor
  · rintro ⟨old, hthere, c, hc, hne⟩
    rw [hvalue] at hne
    by_cases hcdue : c = due.id
    · rw [if_pos hcdue, hcdue, ← hold] at hne
      rcases h.recomputes.node? hthere with ⟨now, hnow, hsame⟩
      rcases h.owned.children hnow (hsame.key ▸ hc) with ⟨child, hchild, hparent⟩
      have hnodes : node = child := Option.some.inj (hnode.symm.trans (hcdue ▸ hchild))
      exact Or.inr ⟨hne.symm, hnodes ▸ hparent⟩
    · rw [if_neg hcdue] at hne
      exact Or.inl ⟨old, hthere, c, hc, hne⟩
  · rintro (⟨old, hthere, c, hc, hne⟩ | ⟨hne, hparent⟩)
    · refine ⟨old, hthere, c, hc, ?_⟩
      rw [hvalue, if_neg]
      · exact hne
      · rintro rfl
        exact hne hbefore
    · rcases h.owned.parents hnode hparent with ⟨above, habove, hchild, -⟩
      rcases h.recomputes.sameGraph.symm.node? habove with ⟨old, hthere, hkey, -⟩
      refine ⟨old, hthere, due.id, hkey ▸ hchild, ?_⟩
      rw [hvalue, if_pos rfl, ← hold]
      exact hne.symm

/-- One turn of propagation. -/
theorem turn (h : Turns start net p done) (hprogress : Progress start held net p done)
    (hmin : net.dirty.min? = some due) (hnode : net.node? due.id = some node) :
    Turns start (net.turn due node p).1 (net.turn due node p).2 (due.id :: done) := by
  have hdue := (Std.TreeSet.min?_eq_some_iff_mem_and_forall.1 hmin).1
  have hfresh := hprogress.ordered.not_done hdue
  have hcounts := h.counts.turn hnode
  refine ⟨hcounts.recomputed, hcounts.evaluations, ?_, ?_⟩
  · rcases changed_turn net due node p with heq | heq
    · rw [heq]
      exact h.changed_nodup
    · -- what has changed has had its turn
      have hnew : due.id ∉ p.changed := by
        rw [hprogress.changed_iff]
        exact fun hne => hne (hprogress.untouched due.id hfresh)
      rw [heq, List.nodup_append]
      refine ⟨h.changed_nodup, by simp, ?_⟩
      rintro id hid other hother rfl
      rw [List.mem_singleton] at hother
      exact hnew (hother ▸ hid)
  · intro id
    rw [stirred_turn hprogress hdue hnode, ← or_assoc, ← h.done_or_waits_iff, or_assoc,
      ← waits_turn hprogress.owned hdue hnode p, List.mem_cons, or_comm (a := id = due.id),
      or_assoc]

end Turns

/-- What every turn keeps is kept by the whole loop, after which nothing is pending. -/
theorem Exhausts.invariant {net : Network} {p : Propagation} {result : Network × Propagation}
    (h : Exhausts net p result) (keeps : Network → Propagation → List NodeId → Prop)
    (hsound : ∀ {net p done}, keeps net p done → net.Sound)
    (hturn : ∀ {net p done due node}, keeps net p done → net.dirty.min? = some due →
      net.node? due.id = some node →
        keeps (net.turn due node p).1 (net.turn due node p).2 (due.id :: done))
    {done : List NodeId} (hkeeps : keeps net p done) :
    ∃ done', keeps result.1 result.2 done' ∧ ∀ due, due ∉ result.1.dirty := by
  induction h generalizing done with
  | done hmin => exact ⟨done, hkeeps, min?_dirty_eq_none_iff.1 hmin⟩
  | missing hmin hnone =>
    have hdue := (Std.TreeSet.min?_eq_some_iff_mem_and_forall.1 hmin).1
    rcases (hsound hkeeps).dirty _ hdue with ⟨node, hnode, -⟩
    rw [hnone] at hnode
    cases hnode
  | turn hmin hnode _ ih => exact ih (hturn hkeeps hmin hnode)

/-- The turns of the whole loop. -/
theorem Exhausts.turns {start net : Network} {held : List NodeId} {p : Propagation}
    {done : List NodeId} {result : Network × Propagation} (h : Exhausts net p result)
    (hprogress : Progress start held net p done) (hturns : Turns start net p done) :
    ∃ done', Progress start held result.1 result.2 done' ∧
      Turns start result.1 result.2 done' ∧ ∀ due, due ∉ result.1.dirty := by
  have hend := h.invariant
    (fun net p done => Progress start held net p done ∧ Turns start net p done)
    (fun hkeeps => hkeeps.1.owned.toSound)
    (fun hkeeps hmin hnode =>
      ⟨hkeeps.1.turn hmin hnode, hkeeps.2.turn hkeeps.1 hmin hnode⟩) ⟨hprogress, hturns⟩
  rcases hend with ⟨done', ⟨hprogress', hturns'⟩, hempty⟩
  exact ⟨done', hprogress', hturns', hempty⟩

end Network

namespace Ledger

/-- What one propagation does: it ends; the nodes `computed` are computed once each, and no others;
the report names the nodes whose value has changed; and nothing is left to do. -/
structure Exact (l : Ledger) (computed : List NodeId) : Prop where
  ends : l.network.Exhausts {} l.network.propagate
  nodup : computed.Nodup
  recomputed : l.network.propagate.2.recomputed = computed.length
  evaluations : ∀ {id node}, l.network.node? id = some node →
    ∃ node', l.network.propagate.1.node? id = some node' ∧
      node'.evaluations = node.evaluations + if id ∈ computed then 1 else 0
  /-- The computed nodes are the leaves with a new input and the nodes above a change. -/
  mem_computed_iff : ∀ id, id ∈ computed ↔ ∃ node, l.network.node? id = some node ∧
    ((∃ fact ∈ l.pending, node.key.op = .fact fact) ∨
      ∃ c ∈ node.key.children, l.network.propagate.1.value c ≠ l.network.value c)
  changed_nodup : l.network.propagate.2.changed.Nodup
  mem_changed_iff : ∀ id, id ∈ l.network.propagate.2.changed ↔
    l.network.propagate.1.value id ≠ l.network.value id
  /-- Nothing but values and the counts of evaluations has changed. -/
  recomputes : l.network.Recomputes l.network.propagate.1
  not_pending : ∀ due, due ∉ l.network.propagate.1.dirty
  leaf_value : ∀ {id node fact}, l.network.propagate.1.node? id = some node →
    node.key.op = .fact fact → node.value = .ofFact fact node.input
  op_value : ∀ {id node}, l.network.propagate.1.node? id = some node →
    (∀ fact, node.key.op ≠ .fact fact) →
      node.value = node.key.op.apply (node.key.children.map l.network.propagate.1.value)

namespace Kept

variable {l : Ledger}

/-- Pending are the leaves with a new input. -/
theorem waits_iff (h : l.Kept) (id : NodeId) :
    l.network.Waits id ↔ ∃ node, l.network.node? id = some node ∧
      ∃ fact ∈ l.pending, node.key.op = .fact fact := by
  constructor
  · rintro ⟨due, hdue, rfl⟩
    rcases h.owned.dirty due hdue with ⟨node, hnode, hheight⟩
    refine ⟨node, hnode, (h.awaits.pending_iff hnode).1 ?_⟩
    rw [hheight]
    exact hdue
  · rintro ⟨node, hnode, hfact⟩
    exact ⟨_, (h.awaits.pending_iff hnode).2 hfact, rfl⟩

/-- Propagation is exact in a network that is in order. -/
theorem exists_exact (h : l.Kept) : ∃ computed, l.Exact computed := by
  have hinit := Network.Progress.init h.owned h.consistent
  have hends : l.network.Exhausts {} l.network.propagate := h.owned.toSound.exhausts
  rcases hends.turns hinit (Network.Turns.init l.network) with ⟨computed, hend, hturns, hempty⟩
  have hsettled : l.network.propagate.1.Settled := ⟨hempty, hend.consistent⟩
  have hwaits : ∀ id, ¬ l.network.propagate.1.Waits id := by
    rintro id ⟨due, hdue, -⟩
    exact hempty due hdue
  refine ⟨computed, ?_⟩
  constructor
  · exact hends
  · exact hend.nodup
  · exact hturns.recomputed
  · intro id node hnode
    rcases hturns.evaluations hnode with ⟨node', hnode', hcount⟩
    rw [hend.nodup.count] at hcount
    exact ⟨node', hnode', hcount⟩
  · intro id
    rw [← or_iff_left (a := id ∈ computed) (hwaits id), hturns.done_or_waits_iff, h.waits_iff,
      Network.Stirred]
    simp only [and_or_left, exists_or]
  · exact hturns.changed_nodup
  · exact hend.changed_iff
  · exact hend.recomputes
  · exact hempty
  · intro id node fact hnode hop
    rw [← Network.value_of_node? hnode, hsettled.value hnode, Network.compute, hop]
  · intro id node hnode hop
    rw [← Network.value_of_node? hnode, hsettled.value hnode, Network.compute_of_ne_fact _ hop]

end Kept

/-- In every honest run in which no count wraps around, a propagation computes the leaves with a new
input and the nodes above a change, once each, and leaves all values right. -/
theorem exact_run (calls : List NetworkCall) (hhonest : ({} : Ledger).Honest calls)
    (hroom : ({} : Ledger).HasRoomFor calls) :
    ∃ computed, (({} : Ledger).run calls).Exact computed :=
  (kept_run hhonest hroom).exists_exact

/-- A second constraint over a leaf whose input is pending, so that the new node is built on the old
value of the leaf. -/
def compiledWhilePending : List NetworkCall :=
  [.compile Scenario.existence, .setFact (.permissionExists ⟨"p1"⟩) (some (.bool true)),
    .compile ⟨⟨"p3"⟩, .not (.base (.permissionExists ⟨"p1"⟩))⟩]

theorem exact_compiledWhilePending : ({} : Ledger).Honest compiledWhilePending ∧
    ({} : Ledger).HasRoomFor compiledWhilePending ∧
      ∃ computed, (({} : Ledger).run compiledWhilePending).Exact computed := by
  have hhonest : ({} : Ledger).Honest compiledWhilePending := ⟨trivial, trivial, trivial, trivial⟩
  have hroom : ({} : Ledger).HasRoomFor compiledWhilePending :=
    hasRoomFor_of_references_lt hhonest (by decide)
  exact ⟨hhonest, hroom, exact_run compiledWhilePending hhonest hroom⟩

/-- A comparison with a child that is gone keeps a value that its children do not give it. -/
theorem Bereft.not_exact {l : Ledger} (h : l.Bereft) : ¬ ∃ computed, l.Exact computed := by
  rintro ⟨computed, hexact⟩
  have hsame : l.network.propagate.1 = l.network := by
    rw [Network.propagate_of_settled h.settled]
  rcases h.parent with ⟨root, -, node, other, hnode, hkey, hvalue⟩
  have hgone : l.network.value ⟨0⟩ = .indeterminate := by
    rw [Network.value, Network.not_live_iff.1 h.gone]
  have hoperator := hexact.op_value (hsame.symm ▸ hnode) (by simp [hkey])
  rw [hsame, hvalue, hkey, List.map_cons, hgone] at hoperator
  cases hoperator

/-- A propagation does not leave all values right if a node that is gone has been retained and the
user takes it that he has a reference, or if a count has wrapped around. -/
theorem not_exact_uncounted :
    (({} : Ledger).Booked stale ∧ ¬ ∃ computed, (({} : Ledger).bookAll stale).Exact computed) ∧
      (({} : Ledger).Honest wrapped ∧ ¬ ∃ computed, (({} : Ledger).run wrapped).Exact computed) :=
  ⟨⟨bereft_stale.1, bereft_stale.2.not_exact⟩, bereft_wrapped.1, bereft_wrapped.2.not_exact⟩

end Ledger
end Mandate
