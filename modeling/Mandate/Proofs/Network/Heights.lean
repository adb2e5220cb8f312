import Mandate.Proofs.Network.Unfolding

/-!
# The heights of nodes

In a network whose references are in order a node without children has height zero, and any other
one is one higher than its highest child.  So the height of a node is that of the circuit it stands
for, every lower height occurs below it, and there are more places than any height.

Main results:

- Theorem `exists_heightOver`: the height over some children is that of the highest, and one more.
- Theorem `Owned.height_of_unfolds`: a node is as high as its circuit.
- Theorem `Owned.height_lt_size`: no node is as high as there are places.
-/

namespace Mandate
namespace Network

/-! ## Heights over children -/

/-- The height over some nodes comes from one of them, unless it is the one at the start. -/
theorem foldl_raise_cases (net : Network) (ids : List NodeId) (height : Nat) :
    ids.foldl net.raise height = height ∨
      ∃ id ∈ ids, ∃ node, net.node? id = some node ∧
        ids.foldl net.raise height = node.height + 1 := by
  induction ids generalizing height with
  | nil => exact Or.inl rfl
  | cons first ids ih =>
    rw [List.foldl_cons]
    rcases ih (net.raise height first) with hfold | ⟨id, hid, node, hnode, hfold⟩
    · rw [hfold]
      cases hnode : net.node? first with
      | none =>
        left
        simp only [raise, hnode]
      | some node =>
        have hraise : net.raise height first = max height (node.height + 1) := by
          simp only [raise, hnode]
        rcases Nat.le_total (node.height + 1) height with hle | hle
        · exact Or.inl (hraise.trans (Nat.max_eq_left hle))
        · exact Or.inr ⟨first, List.mem_cons_self, node, hnode, hraise.trans (Nat.max_eq_right hle)⟩
    · exact Or.inr ⟨id, List.mem_cons_of_mem _ hid, node, hnode, hfold⟩

/-- A node over some children is one higher than the highest of them. -/
theorem exists_heightOver {net : Network} {children : List NodeId} (hne : children ≠ [])
    (hlive : ∀ c ∈ children, net.Live c) :
    ∃ c ∈ children, ∃ child, net.node? c = some child ∧
      net.heightOver children = child.height + 1 ∧
      ∀ c' ∈ children, ∀ child', net.node? c' = some child' → child'.height ≤ child.height := by
  rcases net.foldl_raise_cases children 0 with hzero | ⟨c, hc, child, hchild, hover⟩
  · rcases List.exists_mem_of_ne_nil children hne with ⟨c, hc⟩
    rcases hlive c hc with ⟨child, hchild⟩
    have hlt := height_lt_foldl_raise hchild hc 0
    omega
  · refine ⟨c, hc, child, hchild, hover, fun c' hc' child' hchild' => ?_⟩
    have hlt := height_lt_foldl_raise hchild' hc' 0
    omega

namespace Owned

variable {net : Network} {held : List NodeId} {id : NodeId} {node : Node}

/-! ## Heights of circuits -/

/-- A node is as high as the circuit it stands for. -/
theorem height_of_unfolds (h : net.Owned held) {c : Circuit} (hc : net.Unfolds id c)
    (hnode : net.node? id = some node) : node.height = c.height := by
  have hraise : ∀ {a : NodeId} {below : Node} (height : Nat), net.node? a = some below →
      net.raise height a = max height (below.height + 1) := by
    intro a below height hbelow
    simp only [raise, hbelow]
  induction hc generalizing node with
  | @leaf id here op hhere hkey =>
    rw [hnode, Option.some.injEq] at hhere
    rw [h.height hnode, hhere, hkey]
    rfl
  | @unary id a here op arg hhere hkey harg ih =>
    rw [hnode, Option.some.injEq] at hhere
    rcases h.child_live hnode (c := a) (by simp [hhere, hkey]) with ⟨below, hbelow⟩
    have hover : net.heightOver [a] = net.raise 0 a := rfl
    rw [h.height hnode, hhere, hkey, hover, hraise 0 hbelow, ih hbelow, Circuit.height]
    omega
  | @binary id l r here op left right hhere hkey hleft hright ihl ihr =>
    rw [hnode, Option.some.injEq] at hhere
    rcases h.child_live hnode (c := l) (by simp [hhere, hkey]) with ⟨first, hfirst⟩
    rcases h.child_live hnode (c := r) (by simp [hhere, hkey]) with ⟨second, hsecond⟩
    have hover : net.heightOver [l, r] = net.raise (net.raise 0 l) r := rfl
    rw [h.height hnode, hhere, hkey, hover, hraise 0 hfirst, hraise _ hsecond, ihl hfirst,
      ihr hsecond, Circuit.height]
    omega

/-- What is below a node is no higher. -/
theorem height_le_of_reaches (h : net.Owned held) {j : NodeId} {below : Node}
    (hreach : net.Reaches id j) (hnode : net.node? id = some node)
    (hbelow : net.node? j = some below) : below.height ≤ node.height := by
  induction hreach generalizing node with
  | refl =>
    rw [hnode, Option.some.injEq] at hbelow
    exact Nat.le_of_eq (congrArg Node.height hbelow.symm)
  | @step id c j here hhere hc _ ih =>
    rw [hnode, Option.some.injEq] at hhere
    subst hhere
    rcases h.child_live hnode hc with ⟨child, hchild⟩
    exact (ih hchild hbelow).trans (Nat.le_of_lt (h.child_height_lt hnode hc hchild))

/-! ## Heights and places -/

/-- Below a node there are nodes of every lower height. -/
theorem exists_node_of_height_le (h : net.Owned held) (hnode : net.node? id = some node) {n : Nat}
    (hn : n ≤ node.height) : ∃ j below, net.node? j = some below ∧ below.height = n := by
  induction hheight : node.height using Nat.strong_induction_on generalizing id node with
  | _ height ih =>
    rcases Nat.eq_or_lt_of_le hn with heq | hlt
    · exact ⟨id, node, hnode, heq.symm⟩
    · have hover := h.height hnode
      have hne : node.key.children ≠ [] := by
        intro hleaf
        rw [hleaf] at hover
        have hzero : node.height = 0 := hover
        omega
      rcases exists_heightOver hne fun c hc => h.child_live hnode hc with
        ⟨c, hc, child, hchild, hhighest, -⟩
      exact ih child.height (by omega) hchild (by omega) rfl

/-- There are more places than the height of any node, since all lower heights occur too. -/
theorem height_lt_size (h : net.Owned held) (hnode : net.node? id = some node) :
    node.height < net.slots.size := by
  let heightAt : Nat → Nat := fun i => ((net.node? ⟨i⟩).map Node.height).getD 0
  have hsubset : Finset.range (node.height + 1) ⊆
      (Finset.range net.slots.size).image heightAt := by
    intro n hn
    have hle : n ≤ node.height := Nat.lt_succ_iff.1 (Finset.mem_range.1 hn)
    rcases h.exists_node_of_height_le hnode hle with ⟨j, below, hbelow, hheight⟩
    refine Finset.mem_image.2 ⟨j.index, Finset.mem_range.2 (lt_size_of_node? hbelow), ?_⟩
    simp [heightAt, hbelow, hheight]
  have hcard := (Finset.card_le_card hsubset).trans Finset.card_image_le
  rwa [Finset.card_range, Finset.card_range] at hcard

end Owned
end Network
end Mandate
