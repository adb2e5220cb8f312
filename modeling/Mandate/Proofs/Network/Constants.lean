import Mandate.Proofs.Expr.Folding
import Mandate.Proofs.Network.Calm
import Mandate.Proofs.Network.Placing
import Mandate.Proofs.Network.Room

/-!
# Constants in the network

A term that reads no fact is built like any other one, and its node should have the folded value
for good.  New nodes are computed from the values of their children, so the one thing to be feared
is a node that has lost a child: a surplus release may take the child away and leave its place to an
unrelated node, and a circuit that is built later over that node shares the old parent, with a value
that was computed from the child that is gone.  As long as no node below it has lost a child, the
node of a constant has its value, and this value outlasts all later releases.

Main results:

- Definition `Unbroken`: no node from here downwards has lost a child.
- Definition `Firm`: the nodes of unbroken constants are calm and have the value of their children.
- Theorem `Ledger.firm_run`: so it is in any use of a network.
- Theorem `Ledger.constants_fold`: folding, evaluation, the facts that are read and the values in
  the network agree about constants.
- Theorem `Ledger.value_overreleased`: the node of a constant may have another value if it is built
  over a node that has lost a child.
-/

namespace Mandate
namespace Network

/-! ## Lost children -/

/-- All children of the node at the place are there and feed it. -/
def Attached (net : Network) (id : NodeId) : Prop :=
  ∀ node, net.node? id = some node → ∀ c ∈ node.key.children, net.Feeds c id

/-- No node from here downwards has lost a child. -/
def Unbroken (net : Network) (id : NodeId) : Prop :=
  ∀ j, net.Reaches id j → net.Attached j

/-- No node loses a child as long as the references are in order. -/
theorem Owned.unbroken {net : Network} {held : List NodeId} (h : net.Owned held) (id : NodeId) :
    net.Unbroken id := fun _ _ _ hnode _ hc => h.children hnode hc

/-- The node at the place is a constant, and no node from there downwards has lost a child. -/
structure Constant (net : Network) (id : NodeId) : Prop where
  unbroken : net.Unbroken id
  not_reads : ∀ fact, ¬ net.Reads id fact

namespace Constant

variable {net : Network} {id : NodeId} {node : Node}

theorem feeds (h : net.Constant id) (hnode : net.node? id = some node) {c : NodeId}
    (hc : c ∈ node.key.children) : net.Feeds c id :=
  h.unbroken id (.refl id) node hnode c hc

theorem op_ne_fact (h : net.Constant id) (hnode : net.node? id = some node) (fact : FactKey) :
    node.key.op ≠ .fact fact := fun hop =>
  h.not_reads fact ((reads_iff hnode fact).2 (Or.inl hop))

theorem child (h : net.Constant id) (hnode : net.node? id = some node) {c : NodeId}
    (hc : c ∈ node.key.children) : net.Constant c where
  unbroken j hreach := h.unbroken j (.step hnode hc hreach)
  not_reads fact hreads := h.not_reads fact ((reads_iff hnode fact).2 (Or.inr ⟨c, hc, hreads⟩))

theorem of_reaches (h : net.Constant id) {j : NodeId} (hreach : net.Reaches id j) :
    net.Constant j := by
  induction hreach with
  | refl => exact h
  | step hnode hc _ ih => exact ih (h.child hnode hc)

end Constant

/-- What a node reached before a step it still reaches, if no node below it has lost a child. -/
theorem Stills.reaches {before after : Network} (hstep : before.Stills after) {id j : NodeId}
    (hreach : before.Reaches id j) (hlive : after.Live id) (hunbroken : after.Unbroken id) :
    after.Reaches id j ∧ after.Live j := by
  induction hreach with
  | refl id => exact ⟨.refl id, hlive⟩
  | @step id c j node hnode hc _ ih =>
    rcases hlive with ⟨new, hnew⟩
    have hc' : c ∈ new.key.children := (hstep.key hnode hnew).symm ▸ hc
    have hfeeds := hunbroken id (.refl id) new hnew c hc'
    have hbelow := ih hfeeds.live fun k hk => hunbroken k (.step hnew hc' hk)
    exact ⟨.step hnew hc' hbelow.1, hbelow.2⟩

/-- A constant that was there before a step was a constant then. -/
theorem Constant.before {before after : Network} {id : NodeId} (h : after.Constant id)
    (hstep : before.Stills after) (hlive : after.Live id) : before.Constant id where
  unbroken := by
    intro j hreach node hnode c hc
    rcases hstep.reaches hreach hlive h.unbroken with ⟨hreach', new, hnew⟩
    have hc' : c ∈ new.key.children := (hstep.key hnode hnew).symm ▸ hc
    exact hstep.feeds ⟨node, hnode⟩ ⟨new, hnew⟩ ((h.of_reaches hreach').feeds hnew hc')
  not_reads := by
    rintro fact ⟨j, node, hreach, hnode, hop⟩
    rcases hstep.reaches hreach hlive h.unbroken with ⟨hreach', new, hnew⟩
    exact (h.of_reaches hreach').op_ne_fact hnew fact ((hstep.key hnode hnew).symm ▸ hop)

/-! ## Values of constants -/

/-- Every constant is calm and has the value that its children call for. -/
def Firm (net : Network) : Prop :=
  ∀ id node, net.node? id = some node → net.Constant id →
    net.Calm id ∧ node.value = net.compute node.key none

namespace Firm

variable {net before after : Network}

theorem empty : ({} : Network).Firm := by
  intro id node hnode
  simp [node?] at hnode

/-- What the invariant says of a node that was there before a step. -/
theorem of_live (h : before.Firm) (hstep : before.Stills after) {id : NodeId} {new : Node}
    (hnew : after.node? id = some new) (hlive : before.Live id) (hconstant : after.Constant id) :
    after.Calm id ∧ new.value = after.compute new.key none := by
  rcases hlive with ⟨old, hold⟩
  rcases h id old hold (hconstant.before hstep ⟨new, hnew⟩) with ⟨hcalm, hvalue⟩
  refine ⟨hcalm.stills hstep ⟨new, hnew⟩, ?_⟩
  rw [← value_of_node? hnew, (hstep.still hcalm ⟨new, hnew⟩).2, value_of_node? hold, hvalue,
    hstep.key hold hnew]
  refine (compute_congr none fun c hc => ?_).symm
  have hfeeds := hconstant.feeds hnew ((hstep.key hold hnew).symm ▸ hc)
  have hfed := hstep.feeds ⟨old, hold⟩ ⟨new, hnew⟩ hfeeds
  exact (hstep.still (hcalm.of_feeds hfed) hfeeds.live).2

/-- A step without new nodes. -/
theorem stills (h : before.Firm) (hstep : before.Stills after)
    (hlive : ∀ {id}, after.Live id → before.Live id) : after.Firm := fun _ _ hnew hconstant =>
  h.of_live hstep hnew (hlive ⟨_, hnew⟩) hconstant

/-- A new node is computed from the values of its children, and they are calm. -/
theorem create (h : net.Firm) (hs : net.Sound) {key : NodeKey} (hkey : key.WellFormed)
    (hnew : net.find? key = none) : (net.create key).1.Firm := by
  intro id node hnode hconstant
  have hstep := hs.stills_create key
  rcases hs.node?_create_cases hnode with ⟨rfl, rfl⟩ | ⟨old, hold, -⟩
  · have hchild : ∀ c ∈ key.children, net.Live c := by
      intro c hc
      rcases hconstant.feeds hnode hc with ⟨child, hchild, hparent⟩
      rcases hs.node?_create_cases hchild with ⟨-, rfl⟩ | ⟨old, hold, -⟩
      · cases hparent
      · exact ⟨old, hold⟩
    refine ⟨.intro hnode (hconstant.op_ne_fact hnode) ?_ fun j hfeeds => ?_, ?_⟩
    · -- what waits was there before
      rintro ⟨due, hdue, hid⟩
      rw [create_frame] at hdue
      rcases hs.dirty due hdue with ⟨old, hold, -⟩
      exact Live.ne ⟨old, hold⟩ hs.node?_nextId hid
    · have hmem := (hs.create hkey hnew).mem_children_of_feeds hfeeds hnode
      rcases hfeeds.live with ⟨child, hchildNode⟩
      exact (h.of_live hstep hchildNode (hchild j hmem) (hconstant.child hnode hmem)).1
    · exact (compute_congr none fun c hc => (hs.keeps_create key).value (hchild c hc)).symm
  · exact h.of_live hstep hnode ⟨old, hold⟩ hconstant

theorem intern (h : net.Firm) (hs : net.Sound) {key : NodeKey} (hkey : key.WellFormed) :
    (net.intern key).1.Firm := by
  cases hfind : net.find? key with
  | some id =>
    exact h.stills (hs.stills_intern key) fun hlive => (sameGraph_intern hfind).symm.live hlive
  | none =>
    rw [intern_of_none hfind]
    exact h.create hs hkey hfind

theorem build (h : net.Firm) (hs : net.Sound) {c : Circuit} (hc : c.WellFormed) :
    (net.build c).network.Firm := by
  induction c generalizing net with
  | leaf op => exact h.intern hs (NodeKey.wellFormed_leaf op)
  | unary op arg ih =>
    exact (ih h hs hc.2).intern (hs.build hc.2).1 (NodeKey.wellFormed_of_fact? hc.1 (by simp))
  | binary op left right ihl ihr =>
    have hleft := (hs.build hc.2.1).1
    exact (ihr (ihl h hs hc.2.1) hleft hc.2.2).intern (hleft.build hc.2.2).1
      (NodeKey.wellFormed_of_fact? hc.1 (by simp))

/-- A constant has the value of its circuit, whatever the facts are. -/
theorem value_of_unfolds (h : net.Firm) (hs : net.Sound) {id : NodeId} {c : Circuit}
    (hc : net.Unfolds id c) (hconstant : net.Constant id) :
    net.value id = c.value fun _ => none := by
  refine hs.value_of_unfolds hc fun {j node} hreach hnode => ?_
  rw [(h j node hnode (hconstant.of_reaches hreach)).2]
  simp

end Firm
end Network

namespace Ledger

open Network

variable {l : Ledger}

theorem firm_perform (h : l.network.Firm) (hs : l.network.Sound) (call : NetworkCall) :
    (l.perform call).network.Firm := by
  have hstep := stills_perform hs call
  cases call with
  | compile c =>
    rcases l.network_compile c with heq | ⟨circuit, hc, heq⟩
    · exact heq ▸ h
    · exact heq ▸ h.build hs hc
  | retain id => exact h.stills hstep (l.network.sameGraph_retain id).symm.live
  | release id => exact h.stills hstep (l.network.keeps_releaseAll [] [id]).live
  | setFact key input => exact h.stills hstep hs.sameGraph_setFact.symm.live
  | propagate => exact h.stills hstep hs.stills_propagate.1.symm.live

/-- Constants are firm in any use of a network. -/
theorem firm_run (h : l.network.Firm) (hs : l.network.Sound) (calls : List NetworkCall) :
    (l.run calls).network.Firm := by
  induction calls generalizing l with
  | nil => exact h
  | cons call calls ih => exact ih (firm_perform h hs call) (sound_perform hs call)

/-- A constant that has just been compiled, with no child lost below it, has its value for good. -/
theorem value_constant (h : l.network.Firm) (hs : l.network.Sound) {c : Constraint} {built : Built}
    (hbuilt : l.network.compile c = .ok built) {t : Term} {v : Int} (ht : t ∈ c.body.computed)
    (hvalue : t.constantValue? = some v) {id : NodeId}
    (hid : l.network.Places (c.body.circuit c.permission) t.circuit id)
    (hunbroken : built.network.Unbroken id) {later : List NetworkCall}
    (hremains : (l.perform (.compile c)).Remains id later) :
    ((l.perform (.compile c)).run later).network.value id = .num v := by
  have hperform := perform_compile hbuilt
  rcases build_of_compile hbuilt with ⟨hlowers, rfl⟩
  have hwellFormed := Formula.Lowers.wellFormed hlowers
  have hsound := (hs.build hwellFormed).1
  have hfirm := h.build hs hwellFormed
  have hunfolds := hid.unfolds hs hwellFormed
  have hterm := (Formula.Lowers.builtIn hlowers ht).lowers
  rcases (t.constantValue?_eq_some_iff v).1 hvalue with ⟨hisConstant, hevaluate⟩
  have hconstant : (l.network.build (c.body.circuit c.permission)).network.Constant id := by
    refine ⟨hunbroken, fun fact hreads => ?_⟩
    rw [← hsound.mem_facts_iff hunfolds, hterm.facts_eq, t.isConstant_iff.1 hisConstant] at hreads
    cases hreads
  have hnow : (l.network.build (c.body.circuit c.permission)).network.value id = .num v := by
    rw [hfirm.value_of_unfolds hsound hunfolds hconstant, hterm.value_eq, hevaluate]
    rfl
  rcases hunfolds.live with ⟨node, hnode⟩
  rw [hperform] at hremains ⊢
  rw [value_of_calm hsound (hfirm id node hnode hconstant).1 hremains]
  exact hnow

/-! ## A node that has lost a child -/

/-- The sum of a number and 2. -/
def plusTwo (q : Quantity) : Term :=
  .add (.literal q) (.literal ⟨2, by decide⟩)

/-- The constraint that `1 + 2 = 3`. -/
def fromOne : Constraint :=
  ⟨⟨"p"⟩, .compare .eq (plusTwo ⟨1, by decide⟩) (.literal ⟨3, by decide⟩)⟩

/-- The constraint that `4 + 2 = 3`. -/
def fromFour : Constraint :=
  ⟨⟨"q"⟩, .compare .eq (plusTwo ⟨4, by decide⟩) (.literal ⟨3, by decide⟩)⟩

/-- The circuit of a sum of a number and 2. -/
def plusTwoCircuit (n : Int) : Circuit :=
  .binary .add (.leaf (.literal n)) (.leaf (.literal 2))

/-- The circuit that compares such a sum with 3. -/
def isThreeCircuit (n : Int) : Circuit :=
  .binary (.compare .eq) (plusTwoCircuit n) (.leaf (.literal 3))

/-- The nodes of the sum in a network with nothing but `1 + 2 = 3`. -/
structure Summed (net : Network) : Prop where
  one : net.node? ⟨0⟩ = some ⟨⟨.literal 1, []⟩, [⟨2⟩], 0, 1, .num 1, none, 0, 1⟩
  two : net.node? ⟨1⟩ = some ⟨⟨.literal 2, []⟩, [⟨2⟩], 0, 1, .num 2, none, 0, 1⟩
  sum : net.node? ⟨2⟩ = some ⟨⟨.add, [⟨0⟩, ⟨1⟩]⟩, [⟨4⟩], 1, 1, .num 3, none, 0, 1⟩
  no_four : net.find? ⟨.literal 4, []⟩ = none

theorem summed_build : Summed (({} : Network).build (isThreeCircuit 1)).network := by
  -- all keys differ, so every node is a new one
  constructor <;>
    simp [isThreeCircuit, plusTwoCircuit, build, Network.intern, find?, create, allocate,
      heightOver, compute, Operator.apply, adopt, Network.modify, enterLeaf, Operator.fact?, node?,
      value, Value.ofNum?, checked, inRange]
  rfl

/-- One reference too many is given back, to the first literal of a sum. -/
def overreleased : List NetworkCall :=
  [.compile fromOne, .release ⟨0⟩]

/-- The leaf is taken out. -/
theorem network_overreleased : (({} : Ledger).run overreleased).network =
    (({} : Network).build (isThreeCircuit 1)).network.discard ⟨0⟩
      ⟨⟨.literal 1, []⟩, [⟨2⟩], 0, 1, .num 1, none, 0, 1⟩ := by
  have hrelease : (({} : Ledger).run overreleased).network =
      ((({} : Network).build (isThreeCircuit 1)).network.release ⟨0⟩).network := rfl
  rw [hrelease, release_leaf summed_build.one (by decide) rfl]

/-- The sum has lost its first child, and the place of the child is the next to be filled. -/
structure Robbed (net : Network) : Prop where
  sound : net.Sound
  settled : ∀ due, due ∉ net.dirty
  nextId : net.nextId = ⟨0⟩
  two : ∃ node, net.node? ⟨1⟩ = some node ∧ node.key = ⟨.literal 2, []⟩
  sum : ∃ node, net.node? ⟨2⟩ = some node ∧ node.key = ⟨.add, [⟨0⟩, ⟨1⟩]⟩ ∧ node.value = .num 3
  no_four : net.find? ⟨.literal 4, []⟩ = none

theorem robbed_overreleased : Robbed (({} : Ledger).run overreleased).network := by
  have hs : (({} : Ledger).run overreleased).network.Sound := sound_run sound_empty overreleased
  rw [network_overreleased] at hs ⊢
  refine ⟨hs, ?_, ?_, ?_, ?_, ?_⟩
  · intro due hdue
    have hbefore := (Sound.mem_dirty_discard_iff.1 hdue).1
    rw [dirty_build] at hbefore
    simp at hbefore
  · exact nextId_discard _ _ _
  · exact ⟨_, Sound.node?_discard_of_node? (by decide) summed_build.two, rfl⟩
  · exact ⟨_, Sound.node?_discard_of_node? (by decide) summed_build.sum, rfl, rfl⟩
  · rw [discard_frame, find?, Std.HashMap.getElem?_erase, if_neg (by decide)]
    exact summed_build.no_four

namespace Robbed

variable {net : Network}

/-- The sum of 4 and 2 is taken for the sum of 1 and 2. -/
theorem root_plusTwo (h : Robbed net) : (net.build (plusTwoCircuit 4)).root = ⟨2⟩ := by
  have hleaf : ∀ op, (Circuit.leaf op).WellFormed := fun _ => trivial
  rcases h.sound.build (hleaf (.literal 4)) with ⟨hfirst, hkeepsFirst⟩
  rcases hfirst.build (hleaf (.literal 2)) with ⟨hsecond, hkeepsSecond⟩
  rcases h.two with ⟨two, htwo, htwoKey⟩
  rcases hkeepsFirst.node? htwo with ⟨two', htwo', htwoBare⟩
  rcases h.sum with ⟨sum, hsum, hsumKey, -⟩
  rcases (hkeepsFirst.trans hkeepsSecond).node? hsum with ⟨sum', hsum', hsumBare⟩
  have hfourRoot : (net.build (.leaf (.literal 4))).root = ⟨0⟩ := by
    rw [root_build_leaf, intern_of_none h.no_four, create_id, h.nextId]
  have htwoRoot : ((net.build (.leaf (.literal 4))).network.build (.leaf (.literal 2))).root =
      ⟨1⟩ := by
    rw [root_build_leaf]
    exact hfirst.intern_id htwo' ((Node.eq_of_bare htwoBare).key.trans htwoKey)
  rw [plusTwoCircuit, root_build_binary, hfourRoot, htwoRoot]
  exact hsecond.intern_id hsum' ((Node.eq_of_bare hsumBare).key.trans hsumKey)

theorem value_build (h : Robbed net) (hc : (isThreeCircuit 4).WellFormed) :
    (net.build (isThreeCircuit 4)).network.value ⟨2⟩ = .num 3 := by
  rcases h.sum with ⟨sum, hsum, -, hvalue⟩
  rw [(h.sound.build hc).2.value ⟨sum, hsum⟩, value_of_node? hsum, hvalue]

/-- There is nothing to propagate. -/
theorem propagate_build (h : Robbed net) (c : Circuit) :
    (net.build c).network.propagate.1 = (net.build c).network := by
  have hsettled : ∀ due, due ∉ (net.build c).network.dirty := by
    rw [dirty_build]
    exact h.settled
  rw [propagate_of_settled hsettled]

end Robbed

/-! ## Constants are folded -/

/-- Folding gives the number that evaluation gives on all facts, and the terms that may be folded
are those that read no fact.  Where such a term is an operand of a constraint, it has a node, in any
use of a network.  If no child has been lost below that node when the constraint is compiled, the
node has the folded number as long as it is there, whatever is called later, surplus releases
included.  No child has been lost as long as nobody has given back a reference that he had not got,
and no count has wrapped around. -/
theorem constants_fold (t : Term) (v : Int) :
    (t.constantValue? = some v ↔ t.isConstant = true ∧ ∀ facts, t.evaluate facts = some v) ∧
    (t.isConstant = true ↔ t.reads = []) ∧
    ∀ (calls : List NetworkCall) (c : Constraint) (built : Built),
      (({} : Ledger).run calls).network.compile c = .ok built → t ∈ c.body.computed →
      t.constantValue? = some v →
      (∃ id, (({} : Ledger).run calls).network.Places (c.body.circuit c.permission) t.circuit id) ∧
      (({} : Ledger).Honest calls → ({} : Ledger).HasRoomFor (calls ++ [.compile c]) →
        ∀ id, built.network.Unbroken id) ∧
      ∀ id, (({} : Ledger).run calls).network.Places (c.body.circuit c.permission) t.circuit id →
        built.network.Unbroken id → ∀ later : List NetworkCall,
          ((({} : Ledger).run calls).perform (.compile c)).Remains id later →
          (((({} : Ledger).run calls).perform (.compile c)).run later).network.value id =
            .num v := by
  refine ⟨t.constantValue?_eq_some_iff v, t.isConstant_iff, ?_⟩
  intro calls c built hbuilt ht hvalue
  have hs : (({} : Ledger).run calls).network.Sound := sound_run sound_empty calls
  have hfirm : (({} : Ledger).run calls).network.Firm := firm_run .empty sound_empty calls
  refine ⟨?_, fun hhonest hroom id => ?_, fun id hid hunbroken later hremains => ?_⟩
  · exact (Formula.Lowers.builtIn (build_of_compile hbuilt).1 ht).places _
  · rcases hasRoomFor_append_iff.1 hroom with ⟨hbefore, hcompile, -⟩
    rcases (kept_run hhonest hbefore).owned.compile hbuilt hcompile with ⟨circuit, -, hbuilds⟩
    exact hbuilds.owned.unbroken id
  · exact value_constant hfirm hs hbuilt ht hvalue hid hunbroken hremains

/-- The sum of 1 and 2 keeps its value when its first literal is taken away. -/
theorem constants_fold_overreleased :
    ∃ built, (({} : Ledger).run []).network.compile fromOne = .ok built ∧
      plusTwo ⟨1, by decide⟩ ∈ fromOne.body.computed ∧
      (plusTwo ⟨1, by decide⟩).constantValue? = some 3 ∧
      ({} : Ledger).Honest [] ∧
      ({} : Ledger).HasRoomFor [.compile fromOne] ∧
      (({} : Ledger).run []).network.Places (fromOne.body.circuit fromOne.permission)
        (plusTwo ⟨1, by decide⟩).circuit ⟨2⟩ ∧
      built.network.Unbroken ⟨2⟩ ∧
      ((({} : Ledger).run []).perform (.compile fromOne)).Remains ⟨2⟩ [.release ⟨0⟩] ∧
      (((({} : Ledger).run []).perform (.compile fromOne)).run
        [.release ⟨0⟩]).network.value ⟨2⟩ = .num 3 := by
  have hcomputed : plusTwo ⟨1, by decide⟩ ∈ fromOne.body.computed := by decide
  have hplaces : (({} : Ledger).run []).network.Places (isThreeCircuit 1) (plusTwoCircuit 1)
      ⟨2⟩ := by
    have hroot : (({} : Network).build (plusTwoCircuit 1)).root = ⟨2⟩ := by
      simp [plusTwoCircuit, build, Network.intern, find?, create, allocate, adopt, Network.modify]
    rw [← hroot]
    exact .left (.root _ _)
  have hremains : ((({} : Ledger).run []).perform (.compile fromOne)).Remains ⟨2⟩
      [.release ⟨0⟩] := by
    rcases robbed_overreleased.sum with ⟨sum, hsum, -⟩
    exact ⟨⟨sum, hsum⟩, trivial⟩
  have hroom : ({} : Ledger).HasRoomFor [.compile fromOne] :=
    hasRoomFor_of_references_lt ⟨trivial, trivial⟩ (by decide)
  rcases (constants_fold (plusTwo ⟨1, by decide⟩) 3).2.2 [] fromOne _ rfl hcomputed rfl with
    ⟨-, hunbroken, hvalue⟩
  exact ⟨_, rfl, hcomputed, rfl, trivial, hroom, hplaces, hunbroken trivial hroom ⟨2⟩, hremains,
    hvalue ⟨2⟩ hplaces (hunbroken trivial hroom ⟨2⟩) [.release ⟨0⟩] hremains⟩

/-- The node of a constant may have another value than the constant, and propagation leaves it so:
after one reference too many has been given back, the node of the sum of 4 and 2 has the value 3. -/
theorem value_overreleased :
    ∃ built, (({} : Ledger).run overreleased).network.compile fromFour = .ok built ∧
      plusTwo ⟨4, by decide⟩ ∈ fromFour.body.computed ∧
      (plusTwo ⟨4, by decide⟩).constantValue? = some 6 ∧
      (({} : Ledger).run overreleased).network.Places (fromFour.body.circuit fromFour.permission)
        (plusTwo ⟨4, by decide⟩).circuit ⟨2⟩ ∧
      ((({} : Ledger).run overreleased).perform (.compile fromFour)).Remains ⟨2⟩ [.propagate] ∧
      (((({} : Ledger).run overreleased).perform (.compile fromFour)).run
        [.propagate]).network.value ⟨2⟩ = .num 3 := by
  have hrobbed := robbed_overreleased
  have hplaces : (({} : Ledger).run overreleased).network.Places (isThreeCircuit 4)
      (plusTwoCircuit 4) ⟨2⟩ := by
    rw [← hrobbed.root_plusTwo]
    exact .left (.root _ _)
  have hvalue : ((({} : Ledger).run overreleased).network.build
      (isThreeCircuit 4)).network.propagate.1.value ⟨2⟩ = .num 3 := by
    rw [hrobbed.propagate_build]
    exact hrobbed.value_build ⟨rfl, ⟨rfl, trivial, trivial⟩, trivial⟩
  exact ⟨_, rfl, by decide, rfl, hplaces, ⟨live_of_value hvalue, trivial⟩, hvalue⟩

end Ledger
end Mandate
