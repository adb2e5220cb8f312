import Mandate.Proofs.Analysis.Reading
import Mandate.Proofs.Network.Room
import Mandate.Proofs.Network.Stamps
import Mandate.Scenario

/-!
# Values that lag behind

A new input is noted at its leaf at once, but the values of the nodes take it up in the next
propagation.  A circuit that is compiled in between shares the leaf, and so its root has the truth
of the constraint on the inputs that have been taken up, and not on those that are noted.

Main results:

- Theorems `Reflects.build`, `Reflects.of_keeps`, `Reflects.of_values`: building and releasing
  circuits and supplying inputs keep the table that the values are computed from.
- Definition `Ledger.absorbed`: the inputs that the values have taken up in a run.
- Definition `Ledger.Lags`: the values are computed from a table of facts, which holds the present
  inputs except where a leaf is pending.
- Theorem `Ledger.Lags.run`: after a run the table is what has been taken up.
- Theorem `Ledger.value_compiled`: the value of a root that has just been compiled.
-/

namespace Mandate
namespace Network

/-! ## Inputs of old and new leaves -/

section Inputs

variable {before after net : Network}

/-- Nodes that are kept keep their inputs, so facts that nobody else follows afterwards have the
inputs that they had. -/
theorem Keeps.input_eq (h : before.Keeps after) (hbefore : before.Sound) (hafter : after.Sound)
    (hsub : ∀ fact, after.isSubscribed fact = true → before.isSubscribed fact = true) :
    after.input = before.input := by
  funext fact
  by_cases hfact : before.isSubscribed fact = true
  · exact input_eq_of_bare (h.bare_leaf? hbefore hafter hfact)
  · rw [input_of_not_subscribed hfact, input_of_not_subscribed (mt (hsub fact) hfact)]

/-- A new leaf has no input, as its fact had before. -/
theorem Sound.input_intern (h : net.Sound) {key : NodeKey} (hkey : key.WellFormed) :
    (net.intern key).1.input = net.input := by
  have hsound := h.intern hkey
  funext fact
  by_cases hfact : net.isSubscribed fact = true
  · exact input_eq_of_bare ((h.keeps_intern key).bare_leaf? h hsound hfact)
  · rw [input_of_not_subscribed hfact]
    by_cases hleaf : (net.intern key).1.isSubscribed fact = true
    · rcases (hsound.isSubscribed_iff fact).1 hleaf with ⟨id, node, hnode, hop⟩
      rw [hsound.input_of_node? hnode hop]
      rcases h.node?_intern_cases hnode with ⟨-, -, hinput, -⟩ | ⟨old, hold, hbare⟩
      · exact hinput
      · have hop' : old.key.op = .fact fact := (Node.eq_of_bare hbare).key ▸ hop
        exact absurd ((h.isSubscribed_iff fact).2 ⟨id, old, hold, hop'⟩) hfact
    · exact input_of_not_subscribed hleaf

/-- Building a circuit supplies no inputs. -/
theorem Sound.input_build (h : net.Sound) {c : Circuit} (hc : c.WellFormed) :
    (net.build c).network.input = net.input := by
  induction c generalizing net with
  | leaf op => exact h.input_intern (NodeKey.wellFormed_leaf op)
  | unary op arg ih =>
    have harg := (h.build hc.2).1
    have hkey : (⟨op, [(net.build arg).root]⟩ : NodeKey).WellFormed :=
      NodeKey.wellFormed_of_fact? hc.1 (by simp)
    exact (harg.input_intern hkey).trans (ih h hc.2)
  | binary op left right ihl ihr =>
    have hleft := (h.build hc.2.1).1
    have hright := (hleft.build hc.2.2).1
    have hkey : (⟨op, [(net.build left).root,
        ((net.build left).network.build right).root]⟩ : NodeKey).WellFormed :=
      NodeKey.wellFormed_of_fact? hc.1 (by simp)
    exact (hright.input_intern hkey).trans ((ihr hleft hc.2.2).trans (ihl h hc.2.1))

end Inputs

/-! ## What the values are computed from -/

namespace Reflects

variable {net after : Network} {facts : Facts} {held : List NodeId}

theorem empty : ({} : Network).Reflects fun _ => none where
  value := by simp [node?]
  unknown _ _ := rfl

/-- The same graph with the same values. -/
theorem of_values (h : net.Reflects facts) (hsame : net.SameGraph after)
    (hvalue : ∀ id, after.value id = net.value id) : after.Reflects facts := by
  constructor
  · intro id node hnode
    rcases hsame.symm.node? hnode with ⟨old, hold, hkey, -⟩
    rw [← value_of_node? hnode, hvalue, value_of_node? hold, h.value hold, hkey]
    exact (compute_congr _ fun c _ => hvalue c).symm
  · intro fact hnot
    rw [hsame.isSubscribed] at hnot
    exact h.unknown fact hnot

/-- A new node is computed from the values of its children, and a new leaf from nothing. -/
theorem intern (h : net.Reflects facts) {key : NodeKey} (hkey : key.WellFormed)
    (howned : net.Owned (key.children ++ held)) : (net.intern key).1.Reflects facts := by
  have hkeeps := howned.keeps_intern key
  constructor
  · intro id node hnode
    rcases howned.node?_intern_cases hnode with ⟨hnew, hnodeKey, -, hvalue⟩ | ⟨old, hold, hbare⟩
    · -- nobody has followed the fact of a new leaf
      have hunknown : key.op.fact?.bind facts = none := by
        refine Option.bind_eq_none_iff.2 fun fact hfact => h.unknown fact fun hsub => ?_
        rcases (howned.toSound.isSubscribed_iff fact).1 hsub with ⟨j, leaf, hleaf, hop⟩
        have hkeyOp : key.op = .fact fact := Operator.mem_fact?_iff.1 (by simp [hfact])
        refine howned.find?_eq_none_iff.1 hnew j leaf hleaf ?_
        rw [howned.key_eq_leaf hleaf hop, hkey.eq_leaf hkeyOp]
      rw [hvalue, hnodeKey, hunknown]
      refine (compute_congr none fun c hc => ?_).symm
      exact hkeeps.value (howned.held_live (List.mem_append_left held hc))
    · have hsame := Node.eq_of_bare hbare
      rw [hsame.value, hsame.key, h.value hold]
      exact (compute_congr _ fun c hc => hkeeps.value (howned.child_live hold hc)).symm
  · intro fact hnot
    exact h.unknown fact fun hsub =>
      hnot ((howned.isSubscribed_intern_iff hkey fact).2 (Or.inl hsub))

/-- All nodes of a new circuit are computed from the table that the old ones are computed from. -/
theorem build (h : net.Reflects facts) (howned : net.Owned held) {c : Circuit}
    (hc : c.WellFormed) (hroom : net.HasRoomToBuild c) : (net.build c).network.Reflects facts := by
  induction c generalizing net held with
  | leaf op => exact h.intern (NodeKey.wellFormed_leaf op) howned
  | unary op arg ih =>
    have harg := (howned.build hc.2 hroom.1).owned
    exact (ih h howned hc.2 hroom.1).intern (NodeKey.wellFormed_of_fact? hc.1 (by simp)) harg
  | binary op left right ihl ihr =>
    have hleft := (howned.build hc.2.1 hroom.1).owned
    have hright := (hleft.build hc.2.2 hroom.2.1).owned
    exact (ihr (ihl h howned hc.2.1 hroom.1) hleft hc.2.2 hroom.2.1).intern
      (NodeKey.wellFormed_of_fact? hc.1 (by simp)) (hright.perm (List.Perm.swap _ _ _))

/-- The nodes that are left are computed from what they were computed from, and facts that are no
longer followed are forgotten. -/
theorem of_keeps (h : net.Reflects facts) (howned : after.Owned held) (hkeeps : after.Keeps net)
    {left : Facts} (hleft : ∀ fact, after.isSubscribed fact = true → left fact = facts fact)
    (hgone : ∀ fact, ¬ after.isSubscribed fact = true → left fact = none) :
    after.Reflects left := by
  refine ⟨?_, hgone⟩
  intro id node hnode
  rcases hkeeps.node? hnode with ⟨old, hold, hbare⟩
  have hsame := Node.eq_of_bare hbare
  rw [← hsame.value, h.value hold, hsame.key]
  have hinput : after.compute node.key (node.key.op.fact?.bind left) =
      after.compute node.key (node.key.op.fact?.bind facts) := by
    refine compute_eq_of_fact fun fact hop => ?_
    rw [hop]
    exact hleft fact ((howned.toSound.isSubscribed_iff fact).2 ⟨id, node, hnode, hop⟩)
  rw [hinput]
  exact compute_congr _ fun c hc => hkeeps.value (howned.child_live hnode hc)

end Reflects

end Network

/-! ## Runs -/

namespace Ledger

/-- The inputs that the values have taken up after a call: a propagation takes up the present ones,
and a fact that is no longer followed is forgotten. -/
def absorb (l : Ledger) (facts : Facts) : NetworkCall → Facts
  | .propagate => l.network.input
  | .release id => fun fact => if fact ∈ (l.network.release id).dropped then none else facts fact
  | _ => facts

/-- The inputs that the values have taken up after a run. -/
def absorbed (l : Ledger) (facts : Facts) : List NetworkCall → Facts
  | [] => facts
  | call :: calls => (l.perform call).absorbed (l.absorb facts call) calls

/-- The values are computed from a table of facts, and a fact has another input now only if its leaf
is pending. -/
structure Lags (l : Ledger) (facts : Facts) : Prop where
  kept : l.Kept
  reflects : l.network.Reflects facts
  current : ∀ fact ∉ l.pending, facts fact = l.network.input fact

theorem lags_empty : ({} : Ledger).Lags fun _ => none where
  kept := kept_empty
  reflects := .empty
  current fact _ := by
    refine (Network.input_of_not_subscribed ?_).symm
    simp [Network.isSubscribed]

namespace Lags

variable {l : Ledger} {facts : Facts}

theorem compile (h : l.Lags facts) {c : Constraint} (hroom : l.HasRoom (.compile c)) :
    (l.perform (.compile c)).Lags facts := by
  have hkept := h.kept.compile hroom
  cases hbuilt : l.network.compile c with
  | error reason =>
    simp only [Ledger.perform, hbuilt]
    exact h
  | ok built =>
    rw [perform_compile hbuilt] at hkept ⊢
    rcases (l.network.compile_eq_ok_iff c built).1 hbuilt with ⟨circuit, hlowers, rfl⟩
    have hc := Formula.Lowers.wellFormed hlowers
    refine ⟨hkept, h.reflects.build h.kept.owned hc (hroom circuit hlowers), fun fact hfact => ?_⟩
    rw [h.kept.owned.input_build hc]
    exact h.current fact hfact

theorem retain (h : l.Lags facts) {id : NodeId} (hroom : l.HasRoom (.retain id)) :
    (l.perform (.retain id)).Lags facts := by
  have hkept := h.kept.retain hroom
  have hkeeps := l.network.keeps_retain id
  have hsame := l.network.sameGraph_retain id
  refine ⟨hkept, h.reflects.of_values hsame fun j => ?_, fun fact hfact => ?_⟩
  · by_cases hlive : l.network.Live j
    · exact hkeeps.value hlive
    · have hgone : ¬ (l.network.retain id).Live j := mt hsame.symm.live hlive
      simp only [Network.value, Network.not_live_iff.1 hlive, Ledger.perform,
        Network.not_live_iff.1 hgone]
  · have hinput : (l.network.retain id).input = l.network.input :=
      hkeeps.input_eq h.kept.owned.toSound hkept.owned.toSound fun other hsub =>
        (hsame.isSubscribed other).symm.trans hsub
    exact (h.current fact hfact).trans (congrFun hinput fact).symm

theorem release (h : l.Lags facts) {id : NodeId} (hid : id ∈ l.held) :
    (l.perform (.release id)).Lags (l.absorb facts (.release id)) := by
  have hreleases := (h.kept.owned.perm (List.perm_cons_erase hid)).release
  have hleft : ∀ fact, (l.network.release id).network.isSubscribed fact = true →
      l.absorb facts (.release id) fact = facts fact := by
    intro fact hsub
    exact if_neg fun hdropped => ((hreleases.mem_dropped fact).1 hdropped).2 hsub
  have hgone : ∀ fact, ¬ (l.network.release id).network.isSubscribed fact = true →
      l.absorb facts (.release id) fact = none := by
    intro fact hnot
    by_cases hdropped : fact ∈ (l.network.release id).dropped
    · exact if_pos hdropped
    · refine (if_neg hdropped).trans (h.reflects.unknown fact fun hsub => ?_)
      exact hdropped ((hreleases.mem_dropped fact).2 ⟨hsub, hnot⟩)
  refine ⟨h.kept.release hid, h.reflects.of_keeps hreleases.owned hreleases.keeps hleft hgone, ?_⟩
  intro fact hfact
  by_cases hsub : (l.network.release id).network.isSubscribed fact = true
  · have hpending : fact ∉ l.pending := by
      refine fun hmem => hfact (List.mem_filter.2 ⟨hmem, decide_eq_true fun hdropped => ?_⟩)
      exact ((hreleases.mem_dropped fact).1 hdropped).2 hsub
    rw [hleft fact hsub, h.current fact hpending]
    exact Network.input_eq_of_bare
      (hreleases.keeps.bare_leaf? hreleases.owned.toSound h.kept.owned.toSound hsub)
  · exact (hgone fact hsub).trans (Network.input_of_not_subscribed hsub).symm

theorem setFact (h : l.Lags facts) (key : FactKey) (input : Option FactValue) :
    (l.perform (.setFact key input)).Lags facts := by
  have hsound := h.kept.owned.toSound
  refine ⟨h.kept.setFact key input,
    h.reflects.of_values hsound.sameGraph_setFact fun id => hsound.value_setFact id, ?_⟩
  intro fact hfact
  have hinput : (l.perform (.setFact key input)).network.input fact =
      if fact = key ∧ l.network.isSubscribed key = true then input else l.network.input fact :=
    hsound.input_setFact fact
  simp only [Ledger.perform] at hfact
  rw [hinput]
  by_cases hchanged : (l.network.setFact key input).2 = true
  · rw [if_pos hchanged, List.mem_cons, not_or] at hfact
    rw [if_neg fun hboth => hfact.1 hboth.1]
    exact h.current fact hfact.2
  · rw [if_neg hchanged] at hfact
    rw [h.current fact hfact]
    split
    · next hboth =>
      -- the input has been supplied again
      rw [hboth.1]
      by_contra hne
      exact hchanged (hsound.setFact_changed_iff.2 ⟨hboth.2, hne⟩)
    · rfl

theorem propagate (h : l.Lags facts) : (l.perform .propagate).Lags l.network.input := by
  have hpropagates := h.kept.owned.propagate h.kept.consistent
  have hinput : l.network.propagate.1.input = l.network.input := hpropagates.recomputes.input
  refine ⟨h.kept.propagate, ?_, fun fact _ => (congrFun hinput fact).symm⟩
  rw [← hinput]
  exact hpropagates.settled.reflects hpropagates.owned.toSound

/-- Every permitted call that there is room for. -/
theorem perform (h : l.Lags facts) {call : NetworkCall} (hpermits : l.Permits call)
    (hroom : l.HasRoom call) : (l.perform call).Lags (l.absorb facts call) := by
  cases call with
  | compile c => exact h.compile hroom
  | retain id => exact h.retain hroom
  | release id => exact h.release hpermits
  | setFact key input => exact h.setFact key input
  | propagate => exact h.propagate

theorem run (h : l.Lags facts) {calls : List NetworkCall} (hhonest : l.Honest calls)
    (hroom : l.HasRoomFor calls) : (l.run calls).Lags (l.absorbed facts calls) := by
  induction calls generalizing l facts with
  | nil => exact h
  | cons call calls ih => exact ih (h.perform hhonest.1 hroom.1) hhonest.2 hroom.2

/-- The values have the truth of the constraints on the table that they are computed from. -/
theorem value_root (h : l.Lags facts) {root : NodeId} {c : Constraint} {circuit : Circuit}
    (hunfolds : l.network.Unfolds root circuit) (hlowers : c.Lowers circuit) :
    l.network.value root = Value.ofBool? (c.evaluate facts) := by
  rw [h.reflects.value_of_unfolds h.kept.owned.toSound hunfolds, hlowers.value_eq]

/-- They have the truth on the present inputs if none of the facts of the constraint is pending. -/
theorem value_root_of_not_pending (h : l.Lags facts) {root : NodeId} {c : Constraint}
    {circuit : Circuit} (hunfolds : l.network.Unfolds root circuit) (hlowers : c.Lowers circuit)
    (hcurrent : ∀ fact ∈ c.referencedFacts, fact ∉ l.pending) :
    l.network.value root = Value.ofBool? (c.evaluate l.network.input) := by
  have hagree : facts.Agree l.network.input c.referencedFacts :=
    fun fact hfact => h.current fact (hcurrent fact hfact)
  rw [h.value_root hunfolds hlowers, Constraint.evaluate_congr hagree]

/-- After a propagation they have it in any case. -/
theorem value_propagate (h : l.Lags facts) {root : NodeId} {c : Constraint} {circuit : Circuit}
    (hunfolds : l.network.Unfolds root circuit) (hlowers : c.Lowers circuit) :
    l.network.propagate.1.value root = Value.ofBool? (c.evaluate l.network.input) := by
  have hgraph := (h.kept.owned.propagate h.kept.consistent).recomputes.sameGraph
  exact h.propagate.value_root (hunfolds.sameGraph hgraph) hlowers

/-- A constraint that has just been compiled. -/
theorem compiled (h : l.Lags facts) {c : Constraint} {built : Network.Built}
    (hbuilt : l.network.compile c = .ok built) (hroom : l.network.HasRoomToCompile c) :
    Lags { l with network := built.network, held := built.root :: l.held } facts ∧
      built.network.input = l.network.input ∧
      ∃ circuit, c.Lowers circuit ∧ built.network.Unfolds built.root circuit := by
  have hcompiled := h.compile hroom
  rw [perform_compile hbuilt] at hcompiled
  rcases (l.network.compile_eq_ok_iff c built).1 hbuilt with ⟨circuit, hlowers, rfl⟩
  have hc := Formula.Lowers.wellFormed hlowers
  exact ⟨hcompiled, h.kept.owned.input_build hc, circuit, hlowers,
    (h.kept.owned.build hc (hroom circuit hlowers)).unfolds⟩

end Lags

/-- As soon as a constraint is compiled, its root has the truth of the constraint on the inputs that
the values have taken up, as long as no count has wrapped around.  This is its truth on the present
inputs if none of its facts has had a new input since the last propagation, and the next propagation
makes it so in any case. -/
theorem value_compiled (calls : List NetworkCall) (hhonest : ({} : Ledger).Honest calls)
    {c : Constraint} (hroom : ({} : Ledger).HasRoomFor (calls ++ [.compile c]))
    {built : Network.Built}
    (hbuilt : (({} : Ledger).run calls).network.compile c = .ok built) :
    built.network.value built.root =
        Value.ofBool? (c.evaluate (({} : Ledger).absorbed (fun _ => none) calls)) ∧
      ((∀ fact ∈ c.referencedFacts, fact ∉ (({} : Ledger).run calls).pending) →
        built.network.value built.root = Value.ofBool? (c.evaluate built.network.input)) ∧
      built.network.propagate.1.value built.root =
        Value.ofBool? (c.evaluate built.network.input) := by
  rcases hasRoomFor_append_iff.1 hroom with ⟨hcalls, hlast⟩
  rcases (lags_empty.run hhonest hcalls).compiled hbuilt hlast.1 with
    ⟨hlags, -, circuit, hlowers, hunfolds⟩
  exact ⟨hlags.value_root hunfolds hlowers, hlags.value_root_of_not_pending hunfolds hlowers,
    hlags.value_propagate hunfolds hlowers⟩

/-! ## A constraint over a leaf that is pending -/

/-- The constraint that a permission needs `x` to exist. -/
def needsX (permission : PermId) : Constraint :=
  Scenario.permissionExists permission ⟨"x"⟩

/-- The fact that `x` exists. -/
def existsX : FactKey :=
  .permissionExists ⟨"x"⟩

theorem exists_compiled (net : Network) (permission : PermId) :
    ∃ built, net.compile (needsX permission) = .ok built :=
  ⟨_, (net.compile_eq_ok_iff (needsX permission) _).2 ⟨_, .base (.permissionExists ⟨"x"⟩), rfl⟩⟩

theorem evaluate_needsX {facts : Facts} {b : Bool} (hfact : facts existsX = some (.bool b))
    (permission : PermId) : (needsX permission).evaluate facts = some b := by
  change facts.truth existsX = some b
  rw [Facts.truth, hfact]
  rfl

/-- The fact is followed when a constraint over it has been compiled. -/
theorem Kept.follows_needsX {l : Ledger} (h : l.Kept) {permission : PermId}
    (hroom : l.HasRoom (.compile (needsX permission))) :
    (l.perform (.compile (needsX permission))).network.isSubscribed existsX = true := by
  rcases exists_compiled l.network permission with ⟨built, hbuilt⟩
  rcases h.owned.compile hbuilt hroom with ⟨circuit, hlowers, hbuilds⟩
  have hreads : existsX ∈ (needsX permission).referencedFacts :=
    FactKey.mem_sorted_iff.2 List.mem_cons_self
  rw [perform_compile hbuilt]
  exact (hbuilds.subscribed existsX).2 (Or.inr ((hlowers.mem_facts_iff existsX).2 hreads))

/-- A followed fact takes the input that is supplied, and stays followed. -/
theorem Kept.input_supplied {l : Ledger} (h : l.Kept) {key : FactKey}
    (hsub : l.network.isSubscribed key = true) (input : Option FactValue) :
    (l.perform (.setFact key input)).network.input key = input ∧
      (l.perform (.setFact key input)).network.isSubscribed key = true := by
  have hsound := h.owned.toSound
  exact ⟨(hsound.input_setFact key).trans (if_pos ⟨rfl, hsub⟩),
    (hsound.sameGraph_setFact.isSubscribed key).trans hsub⟩

/-- It is noted that `x` exists. -/
def noted : List NetworkCall :=
  [.compile (needsX ⟨"p"⟩), .setFact existsX (some (.bool true))]

/-- It is taken up that `x` exists, and noted that it does not exist any more. -/
def outdated : List NetworkCall :=
  noted ++ [.propagate] ++ [.setFact existsX (some (.bool false))]

theorem input_noted : (({} : Ledger).run noted).Kept ∧
    (({} : Ledger).run noted).network.input existsX = some (.bool true) ∧
    (({} : Ledger).run noted).network.isSubscribed existsX = true := by
  have hroom : ({} : Ledger).HasRoomFor noted :=
    hasRoomFor_of_references_lt ⟨trivial, trivial, trivial⟩ (by decide)
  have hkept := kept_empty.compile hroom.1
  exact ⟨hkept.setFact _ _, hkept.input_supplied (kept_empty.follows_needsX hroom.1) _⟩

theorem input_outdated :
    (({} : Ledger).run outdated).network.input existsX = some (.bool false) := by
  rcases input_noted with ⟨hnoted, -, hsub⟩
  have hgraph := (hnoted.owned.propagate hnoted.consistent).recomputes.sameGraph
  exact (hnoted.propagate.input_supplied ((hgraph.isSubscribed existsX).trans hsub) _).1

/-- The root of the second constraint has the truth from before the last input, until it is
propagated. -/
theorem value_compiled_outdated : ({} : Ledger).Honest outdated ∧
    ({} : Ledger).HasRoomFor (outdated ++ [.compile (needsX ⟨"q"⟩)]) ∧
    ∃ built, (({} : Ledger).run outdated).network.compile (needsX ⟨"q"⟩) = .ok built ∧
      built.network.input existsX = some (.bool false) ∧
      built.network.value built.root = .bool true ∧
      built.network.propagate.1.value built.root = .bool false := by
  have hhonest : ({} : Ledger).Honest outdated := ⟨trivial, trivial, trivial, trivial, trivial⟩
  have hroom : ({} : Ledger).HasRoomFor (outdated ++ [.compile (needsX ⟨"q"⟩)]) :=
    hasRoomFor_of_references_lt ⟨trivial, trivial, trivial, trivial, trivial, trivial⟩ (by decide)
  rcases exists_compiled (({} : Ledger).run outdated).network ⟨"q"⟩ with ⟨built, hbuilt⟩
  rcases value_compiled outdated hhonest hroom hbuilt with ⟨hvalue, -, hpropagated⟩
  have habsorbed : ({} : Ledger).absorbed (fun _ => none) outdated existsX = some (.bool true) :=
    input_noted.2.1
  have hinput : built.network.input existsX = some (.bool false) := by
    rcases hasRoomFor_append_iff.1 hroom with ⟨hcalls, hlast⟩
    rw [((lags_empty.run hhonest hcalls).compiled hbuilt hlast.1).2.1]
    exact input_outdated
  rw [evaluate_needsX habsorbed] at hvalue
  rw [evaluate_needsX hinput] at hpropagated
  exact ⟨hhonest, hroom, built, hbuilt, hinput, hvalue, hpropagated⟩

/-- A root that has just been compiled does not have the truth on the present inputs: the input that
makes the constraint true is noted, and nothing has taken it up. -/
theorem value_compiled_ne_present : ({} : Ledger).Honest noted ∧
    ∃ built, (({} : Ledger).run noted).network.compile (needsX ⟨"q"⟩) = .ok built ∧
      (needsX ⟨"q"⟩).evaluate built.network.input = some true ∧
      built.network.value built.root = .indeterminate := by
  have hhonest : ({} : Ledger).Honest noted := ⟨trivial, trivial, trivial⟩
  have hroom : ({} : Ledger).HasRoomFor (noted ++ [.compile (needsX ⟨"q"⟩)]) :=
    hasRoomFor_of_references_lt ⟨trivial, trivial, trivial, trivial⟩ (by decide)
  rcases hasRoomFor_append_iff.1 hroom with ⟨hcalls, hlast⟩
  rcases exists_compiled (({} : Ledger).run noted).network ⟨"q"⟩ with ⟨built, hbuilt⟩
  rcases (lags_empty.run hhonest hcalls).compiled hbuilt hlast.1 with
    ⟨hlags, hinput, circuit, hlowers, hunfolds⟩
  refine ⟨hhonest, built, hbuilt, ?_, hlags.value_root hunfolds hlowers⟩
  rw [hinput]
  exact evaluate_needsX input_noted.2.1 ⟨"q"⟩

end Ledger
end Mandate
