import Mathlib.Data.Finset.Lattice.Fold
import Mandate.Proofs.Network.Ownership
import Mandate.Network.Circuit

/-!
# Unfolding nodes into circuits

Following the children of a node down to the leaves gives a circuit.  In a network whose references
are in order every node has exactly one, no two nodes have the same, and the circuit tells what the
node is worth and which facts it follows.

Main results:

- Definition `Unfolds`: a node stands for a circuit.
- Theorem `Sound.unfolds_injective`: two nodes that stand for the same circuit are one.
- Theorem `Owned.exists_unfolds`: every node stands for a circuit.
- Theorem `Owned.unfolds_of_keeps`: what is left of a network stands for what it stood for.
- Definition `Reflects`: the values are computed from a table of facts.
- Theorems `Sound.value_of_unfolds`, `Reflects.value_of_unfolds`, `Settled.value_of_unfolds`: a node
  has the value of its circuit on that table, and on the present inputs when nothing is pending.
- Theorem `Owned.exists_root`: every node is below one that is held outside.
-/

namespace Mandate
namespace Network

/-- The node at a place, with all nodes below it, is the circuit. -/
inductive Unfolds (net : Network) : NodeId → Circuit → Prop
  | leaf {id : NodeId} {node : Node} {op : Operator} :
      net.node? id = some node → node.key = ⟨op, []⟩ → Unfolds net id (.leaf op)
  | unary {id a : NodeId} {node : Node} {op : Operator} {arg : Circuit} :
      net.node? id = some node → node.key = ⟨op, [a]⟩ → Unfolds net a arg →
      Unfolds net id (.unary op arg)
  | binary {id l r : NodeId} {node : Node} {op : Operator} {left right : Circuit} :
      net.node? id = some node → node.key = ⟨op, [l, r]⟩ → Unfolds net l left →
      Unfolds net r right → Unfolds net id (.binary op left right)

theorem Unfolds.live {net : Network} {id : NodeId} {c : Circuit} (h : net.Unfolds id c) :
    net.Live id := by
  cases h with
  | leaf hnode _ => exact ⟨_, hnode⟩
  | unary hnode _ _ => exact ⟨_, hnode⟩
  | binary hnode _ _ _ => exact ⟨_, hnode⟩

/-- A node stands for one circuit at most. -/
theorem Unfolds.unique {net : Network} {id : NodeId} {c d : Circuit} (hc : net.Unfolds id c)
    (hd : net.Unfolds id d) : c = d := by
  induction hc generalizing d with
  | leaf hnode hkey =>
    cases hd with
    | leaf hnode' hkey' => simp_all
    | unary hnode' hkey' _ => simp_all
    | binary hnode' hkey' _ _ => simp_all
  | unary hnode hkey _ ih =>
    cases hd with
    | leaf hnode' hkey' => simp_all
    | unary hnode' hkey' harg =>
      have hsame := hnode.symm.trans hnode'
      simp only [Option.some.injEq] at hsame
      subst hsame
      rw [hkey] at hkey'
      simp only [NodeKey.mk.injEq, List.cons.injEq, and_true] at hkey'
      rcases hkey' with ⟨rfl, rfl⟩
      rw [ih harg]
    | binary hnode' hkey' _ _ => simp_all
  | binary hnode hkey _ _ ihl ihr =>
    cases hd with
    | leaf hnode' hkey' => simp_all
    | unary hnode' hkey' _ => simp_all
    | binary hnode' hkey' hleft hright =>
      have hsame := hnode.symm.trans hnode'
      simp only [Option.some.injEq] at hsame
      subst hsame
      rw [hkey] at hkey'
      simp only [NodeKey.mk.injEq, List.cons.injEq, and_true] at hkey'
      rcases hkey' with ⟨rfl, rfl, rfl⟩
      rw [ihl hleft, ihr hright]

/-- Two nodes that stand for the same circuit are one. -/
theorem Sound.unfolds_injective {net : Network} (h : net.Sound) {i j : NodeId} {c : Circuit}
    (hi : net.Unfolds i c) (hj : net.Unfolds j c) : i = j := by
  induction hi generalizing j with
  | leaf hnode hkey =>
    cases hj with
    | leaf hnode' hkey' => exact h.eq_of_key hnode hnode' (hkey.trans hkey'.symm)
  | unary hnode hkey _ ih =>
    cases hj with
    | unary hnode' hkey' harg =>
      rw [← ih harg] at hkey'
      exact h.eq_of_key hnode hnode' (hkey.trans hkey'.symm)
  | binary hnode hkey _ _ ihl ihr =>
    cases hj with
    | binary hnode' hkey' hleft hright =>
      rw [← ihl hleft, ← ihr hright] at hkey'
      exact h.eq_of_key hnode hnode' (hkey.trans hkey'.symm)

/-- In a network whose references are in order every node stands for a circuit. -/
theorem Owned.exists_unfolds {net : Network} {held : List NodeId} (h : net.Owned held)
    {id : NodeId} (hlive : net.Live id) : ∃ c, net.Unfolds id c := by
  rcases hlive with ⟨node, hnode⟩
  -- children are lower than their parents
  induction hn : node.height using Nat.strong_induction_on generalizing id node with
  | _ n ih =>
    have hbelow : ∀ c ∈ node.key.children, ∃ t, net.Unfolds c t := by
      intro c hc
      rcases h.child_live hnode hc with ⟨child, hchild⟩
      exact ih child.height (hn ▸ h.child_height_lt hnode hc hchild) child hchild rfl
    have harity := (h.keys hnode).arity
    match hkey : node.key with
    | ⟨op, []⟩ => exact ⟨_, .leaf hnode hkey⟩
    | ⟨op, [a]⟩ =>
      rcases hbelow a (by simp [hkey]) with ⟨arg, harg⟩
      exact ⟨_, .unary hnode hkey harg⟩
    | ⟨op, [l, r]⟩ =>
      rcases hbelow l (by simp [hkey]) with ⟨left, hleft⟩
      rcases hbelow r (by simp [hkey]) with ⟨right, hright⟩
      exact ⟨_, .binary hnode hkey hleft hright⟩
    | ⟨op, a :: b :: c :: rest⟩ =>
      rw [hkey] at harity
      simp at harity

/-! ## Circuits in changing networks -/

/-- A network that keeps all nodes keeps their circuits. -/
theorem Unfolds.mono {before after : Network} {id : NodeId} {c : Circuit}
    (h : before.Unfolds id c) (hkeeps : before.Keeps after) : after.Unfolds id c := by
  induction h with
  | leaf hnode hkey =>
    rcases hkeeps.node? hnode with ⟨node', hnode', hbare⟩
    exact .leaf hnode' ((Node.eq_of_bare hbare).key.trans hkey)
  | unary hnode hkey _ ih =>
    rcases hkeeps.node? hnode with ⟨node', hnode', hbare⟩
    exact .unary hnode' ((Node.eq_of_bare hbare).key.trans hkey) ih
  | binary hnode hkey _ _ ihl ihr =>
    rcases hkeeps.node? hnode with ⟨node', hnode', hbare⟩
    exact .binary hnode' ((Node.eq_of_bare hbare).key.trans hkey) ihl ihr

/-- The same graph has the same circuits. -/
theorem Unfolds.sameGraph {before after : Network} {id : NodeId} {c : Circuit}
    (h : before.Unfolds id c) (hsame : before.SameGraph after) : after.Unfolds id c := by
  induction h with
  | leaf hnode hkey =>
    rcases hsame.node? hnode with ⟨node', hnode', hkey', -⟩
    exact .leaf hnode' (hkey'.trans hkey)
  | unary hnode hkey _ ih =>
    rcases hsame.node? hnode with ⟨node', hnode', hkey', -⟩
    exact .unary hnode' (hkey'.trans hkey) ih
  | binary hnode hkey _ _ ihl ihr =>
    rcases hsame.node? hnode with ⟨node', hnode', hkey', -⟩
    exact .binary hnode' (hkey'.trans hkey) ihl ihr

/-- A node that is left when others have gone stands for the same circuit as before. -/
theorem Owned.unfolds_of_keeps {before after : Network} {held : List NodeId} (h : after.Owned held)
    (hkeeps : after.Keeps before) {id : NodeId} {c : Circuit} (hc : before.Unfolds id c)
    (hlive : after.Live id) : after.Unfolds id c := by
  rcases h.exists_unfolds hlive with ⟨d, hd⟩
  have hsame : d = c := (hd.mono hkeeps).unique hc
  exact hsame ▸ hd

/-! ## Values -/

/-- A node is found by following children from another one. -/
inductive Reaches (net : Network) : NodeId → NodeId → Prop
  | refl (id : NodeId) : Reaches net id id
  | step {id c j : NodeId} {node : Node} :
      net.node? id = some node → c ∈ node.key.children → Reaches net c j → Reaches net id j

theorem Reaches.trans {net : Network} {i j k : NodeId} (hij : net.Reaches i j)
    (hjk : net.Reaches j k) : net.Reaches i k := by
  induction hij with
  | refl => exact hjk
  | step hnode hc _ ih => exact .step hnode hc (ih hjk)

/-- Every node that is not pending has the value that its operands call for. -/
def Consistent (net : Network) : Prop :=
  ∀ {id node}, net.node? id = some node →
    node.value = net.compute node.key node.input ∨ ⟨node.height, id⟩ ∈ net.dirty

/-- Nothing is pending, and every node has the value that its operands call for. -/
structure Settled (net : Network) : Prop where
  dirty : ∀ due, due ∉ net.dirty
  consistent : net.Consistent

theorem compute_congr {before after : Network} {key : NodeKey} (input : Option FactValue)
    (h : ∀ c ∈ key.children, after.value c = before.value c) :
    after.compute key input = before.compute key input := by
  unfold compute
  rw [List.map_congr_left h]

theorem Settled.value {net : Network} (h : net.Settled) {id : NodeId} {node : Node}
    (hnode : net.node? id = some node) : net.value id = net.compute node.key node.input := by
  rw [value_of_node? hnode]
  exact (h.consistent hnode).resolve_right (h.dirty _)

theorem compute_of_ne_fact {net : Network} {key : NodeKey} (input : Option FactValue)
    (h : ∀ fact, key.op ≠ .fact fact) :
    net.compute key input = key.op.apply (key.children.map net.value) := by
  unfold compute
  cases hop : key.op with
  | fact fact => exact (h fact hop).elim
  | _ => rfl

/-- A node with children follows no fact. -/
theorem Sound.op_ne_fact {net : Network} (h : net.Sound) {id c : NodeId} {node : Node}
    (hnode : net.node? id = some node) (hc : c ∈ node.key.children) (fact : FactKey) :
    node.key.op ≠ .fact fact := by
  intro hop
  rw [(h.keys hnode).leaf fact hop] at hc
  simp at hc

/-- Only the leaves of facts are computed from inputs. -/
theorem compute_eq_of_fact {net : Network} {key : NodeKey} {input other : Option FactValue}
    (h : ∀ fact, key.op = .fact fact → input = other) :
    net.compute key input = net.compute key other := by
  unfold compute
  cases hop : key.op with
  | fact fact => rw [h fact hop]
  | _ => rfl

/-- The values in the network are computed from a table of facts, which has nothing for a fact that
nobody follows.  The table need not be the present inputs. -/
structure Reflects (net : Network) (facts : Facts) : Prop where
  value : ∀ {id node}, net.node? id = some node →
    node.value = net.compute node.key (node.key.op.fact?.bind facts)
  unknown : ∀ fact, ¬ net.isSubscribed fact = true → facts fact = none

/-- A node has the value of its circuit on a table of facts that its value and those of all nodes
below it are computed from. -/
theorem Sound.value_of_unfolds {net : Network} (h : net.Sound) {facts : Facts} {id : NodeId}
    {c : Circuit} (hc : net.Unfolds id c)
    (hvalue : ∀ {j node}, net.Reaches id j → net.node? j = some node →
      node.value = net.compute node.key (node.key.op.fact?.bind facts)) :
    net.value id = c.value facts := by
  induction hc with
  | @leaf id node op hnode hkey =>
    rw [value_of_node? hnode, hvalue (.refl id) hnode, hkey]
    cases op <;> rfl
  | @unary id a node op arg hnode hkey _ ih =>
    have ha : a ∈ node.key.children := by simp [hkey]
    have hne := h.op_ne_fact hnode ha
    rw [value_of_node? hnode, hvalue (.refl id) hnode, compute_of_ne_fact _ hne, hkey, Circuit.value,
      ← ih fun hreach => hvalue (.step hnode ha hreach)]
    rfl
  | @binary id l r node op left right hnode hkey _ _ ihl ihr =>
    have hl : l ∈ node.key.children := by simp [hkey]
    have hr : r ∈ node.key.children := by simp [hkey]
    have hne := h.op_ne_fact hnode hl
    rw [value_of_node? hnode, hvalue (.refl id) hnode, compute_of_ne_fact _ hne, hkey, Circuit.value,
      ← ihl fun hreach => hvalue (.step hnode hl hreach),
      ← ihr fun hreach => hvalue (.step hnode hr hreach)]
    rfl

/-- A node has the value of its circuit on the table that the values are computed from. -/
theorem Reflects.value_of_unfolds {net : Network} {facts : Facts} (h : net.Reflects facts)
    (hs : net.Sound) {id : NodeId} {c : Circuit} (hc : net.Unfolds id c) :
    net.value id = c.value facts :=
  hs.value_of_unfolds hc fun _ => h.value

/-- With nothing pending, the values are computed from the present inputs. -/
theorem Settled.reflects {net : Network} (h : net.Settled) (hs : net.Sound) :
    net.Reflects net.input where
  value := by
    intro id node hnode
    rw [← value_of_node? hnode, h.value hnode]
    refine compute_eq_of_fact fun fact hop => ?_
    rw [hop]
    exact (hs.input_of_node? hnode hop).symm
  unknown _ := input_of_not_subscribed

/-- With nothing pending, a node has the value of its circuit on the present inputs. -/
theorem Settled.value_of_unfolds {net : Network} (h : net.Settled) (hs : net.Sound) {id : NodeId}
    {c : Circuit} (hc : net.Unfolds id c) : net.value id = c.value net.input :=
  (h.reflects hs).value_of_unfolds hs hc

/-! ## Nodes below a root -/

/-- Some height is not exceeded by any node. -/
theorem exists_height_le (net : Network) :
    ∃ bound, ∀ id node, net.node? id = some node → node.height ≤ bound := by
  let heightAt : Nat → Nat := fun i => ((net.node? ⟨i⟩).map Node.height).getD 0
  refine ⟨(Finset.range net.slots.size).sup heightAt, ?_⟩
  intro id node hnode
  have hmem : id.index ∈ Finset.range net.slots.size := Finset.mem_range.2 (lt_size_of_node? hnode)
  have hle : heightAt id.index ≤ (Finset.range net.slots.size).sup heightAt := Finset.le_sup hmem
  have heq : heightAt id.index = node.height := by
    simp [heightAt, hnode]
  omega

/-- Every node is below one that is held outside. -/
theorem Owned.exists_root {net : Network} {held : List NodeId} (h : net.Owned held) {id : NodeId}
    (hlive : net.Live id) : ∃ root ∈ held, net.Reaches root id := by
  rcases net.exists_height_le with ⟨bound, hbound⟩
  rcases hlive with ⟨node, hnode⟩
  -- parents are higher than their children, and no node is higher than the bound
  induction hn : bound - node.height using Nat.strong_induction_on generalizing id node with
  | _ n ih =>
    have hcount := h.refcount hnode
    have hpos := h.refcount_pos hnode
    by_cases hheld : id ∈ held
    · exact ⟨id, hheld, .refl id⟩
    · have hzero : held.count id = 0 := List.count_eq_zero.2 hheld
      rcases uses_pos_iff.1 (by omega : 0 < net.uses id) with ⟨parent, above, habove, hmem⟩
      have hlt := h.child_height_lt habove hmem hnode
      have hle := hbound parent above habove
      rcases ih (bound - above.height) (by omega) above habove rfl with ⟨root, hroot, hreach⟩
      exact ⟨root, hroot, hreach.trans (.step habove hmem (.refl id))⟩

/-- The node at a place, or one below it, follows the fact. -/
def Reads (net : Network) (id : NodeId) (fact : FactKey) : Prop :=
  ∃ j node, net.Reaches id j ∧ net.node? j = some node ∧ node.key.op = .fact fact

/-- What a node reads it follows itself, or one of its children reads it. -/
theorem reads_iff {net : Network} {id : NodeId} {node : Node} (hnode : net.node? id = some node)
    (fact : FactKey) :
    net.Reads id fact ↔
      node.key.op = .fact fact ∨ ∃ c ∈ node.key.children, net.Reads c fact := by
  constructor
  · intro hreads
    rcases hreads with ⟨j, below, hreach, hbelow, hfact⟩
    cases hreach with
    | refl =>
      have hsame : node = below := Option.some.inj (hnode.symm.trans hbelow)
      exact Or.inl (hsame ▸ hfact)
    | step hnode' hc hreach =>
      have hsame := Option.some.inj (hnode.symm.trans hnode')
      exact Or.inr ⟨_, hsame ▸ hc, j, below, hreach, hbelow, hfact⟩
  · intro hreads
    rcases hreads with hfact | ⟨c, hc, j, below, hreach, hbelow, hfact⟩
    · exact ⟨id, node, .refl id, hnode, hfact⟩
    · exact ⟨j, below, .step hnode hc hreach, hbelow, hfact⟩

/-- The facts of a circuit are those that its node reads. -/
theorem Sound.mem_facts_iff {net : Network} (h : net.Sound) {id : NodeId} {c : Circuit}
    (hc : net.Unfolds id c) (fact : FactKey) : fact ∈ c.facts ↔ net.Reads id fact := by
  induction hc with
  | leaf hnode hkey =>
    rw [reads_iff hnode, Circuit.facts, Operator.mem_fact?_iff]
    simp [hkey]
  | @unary id a node op arg hnode hkey _ ih =>
    have hop := h.op_ne_fact hnode (c := a) (by simp [hkey]) fact
    rw [reads_iff hnode, or_iff_right hop, Circuit.facts, ih, hkey]
    simp
  | @binary id l r node op left right hnode hkey _ _ ihl ihr =>
    have hop := h.op_ne_fact hnode (c := l) (by simp [hkey]) fact
    rw [reads_iff hnode, or_iff_right hop, Circuit.facts, List.mem_append, ihl, ihr, hkey]
    simp

/-- A fact is followed if and only if a circuit that is held outside has it. -/
theorem Owned.isSubscribed_iff {net : Network} {held : List NodeId} (h : net.Owned held)
    (fact : FactKey) :
    net.isSubscribed fact = true ↔ ∃ root ∈ held, ∃ c, net.Unfolds root c ∧ fact ∈ c.facts := by
  rw [h.toSound.isSubscribed_iff]
  constructor
  · intro hleaf
    rcases hleaf with ⟨id, node, hnode, hfact⟩
    rcases h.exists_root ⟨node, hnode⟩ with ⟨root, hroot, hreach⟩
    rcases h.exists_unfolds (h.held_live hroot) with ⟨c, hc⟩
    exact ⟨root, hroot, c, hc, (h.mem_facts_iff hc fact).2 ⟨id, node, hreach, hnode, hfact⟩⟩
  · intro hread
    rcases hread with ⟨root, -, c, hc, hfact⟩
    rcases (h.mem_facts_iff hc fact).1 hfact with ⟨id, node, -, hnode, hop⟩
    exact ⟨id, node, hnode, hop⟩

end Network
end Mandate
