import Mandate.Proofs.Analysis.Reading
import Mandate.Proofs.Network.Surplus

/-!
# Where the terms of a constraint are

Building a circuit builds its parts on the way, each with a root of its own.  So every term that the
evaluation of a constraint computes, an operand of a comparison or of another term, has a node in
the network.  The period of a rate limit has none; it becomes part of the fact.

Main results:

- Definition `Places`: the node of a part while a circuit is built.
- Theorem `Places.unfolds`: afterwards that node still stands for the part.
- Theorem `Formula.Lowers.builtIn`: every computed term of a formula has a node.
-/

namespace Mandate
namespace Network

/-! ## Places of parts -/

/-- While a circuit is built in the network, a part of it is built, with the root at a place. -/
inductive Places : Network → Circuit → Circuit → NodeId → Prop
  | root (net : Network) (c : Circuit) : Places net c c (net.build c).root
  | arg {net : Network} {op : Operator} {arg part : Circuit} {id : NodeId} :
      Places net arg part id → Places net (.unary op arg) part id
  | left {net : Network} {op : Operator} {left right part : Circuit} {id : NodeId} :
      Places net left part id → Places net (.binary op left right) part id
  | right {net : Network} {op : Operator} {left right part : Circuit} {id : NodeId} :
      Places (net.build left).network right part id → Places net (.binary op left right) part id

theorem root_build_leaf (net : Network) (op : Operator) :
    (net.build (.leaf op)).root = (net.intern ⟨op, []⟩).2 := rfl

theorem root_build_binary (net : Network) (op : Operator) (left right : Circuit) :
    (net.build (.binary op left right)).root =
      (((net.build left).network.build right).network.intern
        ⟨op, [(net.build left).root, ((net.build left).network.build right).root]⟩).2 := rfl

/-- The root of what has been built stands for the circuit, in every sound network. -/
theorem Sound.unfolds_build {net : Network} (h : net.Sound) {c : Circuit} (hc : c.WellFormed) :
    (net.build c).network.Unfolds (net.build c).root c := by
  induction c generalizing net with
  | leaf op =>
    rcases h.exists_node_intern ⟨op, []⟩ with ⟨node, hnode, hkey⟩
    exact .leaf hnode hkey
  | unary op arg ih =>
    rcases h.build hc.2 with ⟨hsound, -⟩
    rcases hsound.exists_node_intern ⟨op, [(net.build arg).root]⟩ with ⟨node, hnode, hkey⟩
    exact .unary hnode hkey ((ih h hc.2).mono (hsound.keeps_intern _))
  | binary op left right ihl ihr =>
    rcases h.build hc.2.1 with ⟨hleft, -⟩
    rcases hleft.build hc.2.2 with ⟨hright, hkeeps⟩
    rcases hright.exists_node_intern ⟨op, [(net.build left).root,
      ((net.build left).network.build right).root]⟩ with ⟨node, hnode, hkey⟩
    have hkeepsRoot := hright.keeps_intern ⟨op, [(net.build left).root,
      ((net.build left).network.build right).root]⟩
    exact .binary hnode hkey ((ihl h hc.2.1).mono (hkeeps.trans hkeepsRoot))
      ((ihr hleft hc.2.2).mono hkeepsRoot)

/-- When the whole circuit has been built, the node of a part stands for the part. -/
theorem Places.unfolds {net : Network} {c part : Circuit} {id : NodeId}
    (h : net.Places c part id) (hsound : net.Sound) (hc : c.WellFormed) :
    (net.build c).network.Unfolds id part := by
  induction h with
  | root net c => exact hsound.unfolds_build hc
  | arg _ ih => exact (ih hsound hc.2).mono ((hsound.build hc.2).1.keeps_intern _)
  | left _ ih =>
    rcases hsound.build hc.2.1 with ⟨hleft, -⟩
    rcases hleft.build hc.2.2 with ⟨hright, hkeeps⟩
    exact (ih hsound hc.2.1).mono (hkeeps.trans (hright.keeps_intern _))
  | right _ ih =>
    rcases hsound.build hc.2.1 with ⟨hleft, -⟩
    exact (ih hleft hc.2.2).mono ((hleft.build hc.2.2).1.keeps_intern _)

end Network

/-! ## Places of terms -/

/-- The term has a circuit by the rules, and it is built whenever the other circuit is. -/
structure Term.BuiltIn (t : Term) (c : Circuit) : Prop where
  lowers : t.Lowers t.circuit
  places : ∀ net : Network, ∃ id, net.Places c t.circuit id

namespace Term.BuiltIn

variable {t : Term} {op : Operator} {c l r : Circuit}

theorem arg (h : t.BuiltIn c) : t.BuiltIn (.unary op c) where
  lowers := h.lowers
  places net := by
    rcases h.places net with ⟨id, hid⟩
    exact ⟨id, .arg hid⟩

theorem left (h : t.BuiltIn l) : t.BuiltIn (.binary op l r) where
  lowers := h.lowers
  places net := by
    rcases h.places net with ⟨id, hid⟩
    exact ⟨id, .left hid⟩

theorem right (h : t.BuiltIn r) : t.BuiltIn (.binary op l r) where
  lowers := h.lowers
  places net := by
    rcases h.places (net.build l).network with ⟨id, hid⟩
    exact ⟨id, .right hid⟩

/-- Terms of both sides of an operator. -/
theorem append {ts us : List Term} (hl : t ∈ ts → t.BuiltIn l) (hr : t ∈ us → t.BuiltIn r)
    (ht : t ∈ ts ++ us) : t.BuiltIn (.binary op l r) := by
  rcases List.mem_append.1 ht with ht | ht
  · exact (hl ht).left
  · exact (hr ht).right

end Term.BuiltIn

theorem Term.Lowers.builtIn_self {t : Term} {c : Circuit} (h : t.Lowers c) : t.BuiltIn c := by
  rcases h.passes with ⟨-, rfl⟩
  exact ⟨h, fun net => ⟨_, .root net t.circuit⟩⟩

theorem Term.Lowers.builtIn {t u : Term} {c : Circuit} (h : t.Lowers c) (hu : u ∈ t.parts) :
    u.BuiltIn c := by
  induction h with
  | @literal q n hq =>
    have hself : u = .literal q := by
      simpa [parts] using hu
    exact hself ▸ (Term.Lowers.literal hq).builtIn_self
  | @fact t key hkey =>
    have hself : u = t := by
      cases t <;> simp_all [FactKey.ofTerm?, parts]
    exact hself ▸ (Term.Lowers.fact hkey).builtIn_self
  | add hl hr ihl ihr =>
    rcases List.mem_cons.1 hu with rfl | hu
    · exact (Term.Lowers.add hl hr).builtIn_self
    · exact .append ihl ihr hu
  | sub hl hr ihl ihr =>
    rcases List.mem_cons.1 hu with rfl | hu
    · exact (Term.Lowers.sub hl hr).builtIn_self
    · exact .append ihl ihr hu

theorem Predicate.Lowers.builtIn {owner : PermId} {p : Predicate} {u : Term} {c : Circuit}
    (h : p.Lowers owner c) (hu : u ∈ p.computed) : u.BuiltIn c := by
  cases h with
  | maxDelegationDepth hlimit => exact (hlimit.builtIn hu).right
  | rateLimit _ hlimit => exact (hlimit.builtIn hu).right
  | _ => cases hu

/-- Wherever the circuit of a formula is built, every term that is computed has a node. -/
theorem Formula.Lowers.builtIn {owner : PermId} {f : Formula} {u : Term} {c : Circuit}
    (h : f.Lowers owner c) (hu : u ∈ f.computed) : u.BuiltIn c := by
  induction h with
  | not _ ih => exact (ih hu).arg
  | and _ _ ihl ihr => exact .append ihl ihr hu
  | or _ _ ihl ihr => exact .append ihl ihr hu
  | compare hl hr => exact .append hl.builtIn hr.builtIn hu
  | base hp => exact hp.builtIn hu

end Mandate
