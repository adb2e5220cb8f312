import Mathlib.Data.List.Basic
import Mandate.Analysis.Skeleton

/-!
# Taking formulas apart and rebuilding them

The atoms and the skeleton of a formula rebuild the formula, and the skeleton refers to every atom
once, from left to right.  A skeleton of any origin can be rebuilt as long as it refers to atoms
that are there; it may repeat some of them and leave others out.

Main results:

- Definition `Formula.parts`: all formulas in a formula.
- Definition `Skeleton.indices`: the positions to which a skeleton refers.
- Definition `Skeleton.Rebuilds`: the rules by which a skeleton stands for a formula.
- Theorem `Skeleton.rebuild?_eq_some_iff`: rebuilding follows the rules.
- Theorem `Skeleton.rebuild?_eq_none_iff`: when it fails.
- Theorem `Formula.rebuilds_skeleton`: a formula is rebuilt from its own parts.
- Theorem `Constraint.analysis_rebuilds`: what analysis keeps, and what becomes of any skeleton.
-/

namespace Mandate

/-! ## Parts and positions -/

/-- The formula and all formulas in it, a formula before its operands. -/
def Formula.parts : Formula → List Formula
  | .not f => .not f :: f.parts
  | .and l r => .and l r :: (l.parts ++ r.parts)
  | .or l r => .or l r :: (l.parts ++ r.parts)
  | .compare op l r => [.compare op l r]
  | .base p => [.base p]

/-- The positions to which a skeleton refers, from left to right. -/
def Skeleton.indices : Skeleton → List Nat
  | .atom i => [i]
  | .not s => s.indices
  | .and l r | .or l r => l.indices ++ r.indices

/-- The same connectives stand in both skeletons, over any positions. -/
inductive Skeleton.SameShape : Skeleton → Skeleton → Prop
  | atom (i j : Nat) : SameShape (.atom i) (.atom j)
  | not {s t : Skeleton} : SameShape s t → SameShape (.not s) (.not t)
  | and {l r l' r' : Skeleton} : SameShape l l' → SameShape r r' →
      SameShape (.and l r) (.and l' r')
  | or {l r l' r' : Skeleton} : SameShape l l' → SameShape r r' →
      SameShape (.or l r) (.or l' r')

/-! ## What a skeleton stands for -/

/-- A position stands for the atom there, and connectives stand for themselves. -/
inductive Skeleton.Rebuilds (atoms : List Atom) : Skeleton → Formula → Prop
  | atom {i : Nat} {a : Atom} : atoms[i]? = some a → Rebuilds atoms (.atom i) a.toFormula
  | not {s : Skeleton} {f : Formula} : Rebuilds atoms s f → Rebuilds atoms (.not s) (.not f)
  | and {s t : Skeleton} {l r : Formula} : Rebuilds atoms s l → Rebuilds atoms t r →
      Rebuilds atoms (.and s t) (.and l r)
  | or {s t : Skeleton} {l r : Formula} : Rebuilds atoms s l → Rebuilds atoms t r →
      Rebuilds atoms (.or s t) (.or l r)

/-- A connective is rebuilt if and only if both operands are. -/
theorem rebuild_operands_iff {x y : Option Formula} {op : Formula → Formula → Formula}
    {f : Formula} : (do some (op (← x) (← y))) = some f ↔
      ∃ l r, x = some l ∧ y = some r ∧ f = op l r := by
  cases x <;> cases y <;> simp [eq_comm]

theorem rebuild_operands_eq_none_iff {x y : Option Formula} {op : Formula → Formula → Formula} :
    (do some (op (← x) (← y))) = none ↔ x = none ∨ y = none := by
  cases x <;> cases y <;> simp

namespace Skeleton

variable {atoms : List Atom} {s : Skeleton} {f : Formula}

/-- Rebuilding follows the rules. -/
theorem rebuild?_eq_some_iff : s.rebuild? atoms = some f ↔ s.Rebuilds atoms f := by
  constructor
  · intro h
    induction s generalizing f with
    | atom i =>
      rcases Option.map_eq_some_iff.1 h with ⟨a, ha, rfl⟩
      exact .atom ha
    | not s ih =>
      rcases Option.map_eq_some_iff.1 h with ⟨g, hg, rfl⟩
      exact .not (ih hg)
    | and s t ihs iht =>
      rcases rebuild_operands_iff.1 h with ⟨l, r, hl, hr, rfl⟩
      exact .and (ihs hl) (iht hr)
    | or s t ihs iht =>
      rcases rebuild_operands_iff.1 h with ⟨l, r, hl, hr, rfl⟩
      exact .or (ihs hl) (iht hr)
  · intro h
    induction h with
    | atom ha => exact Option.map_eq_some_iff.2 ⟨_, ha, rfl⟩
    | not _ ih => exact Option.map_eq_some_iff.2 ⟨_, ih, rfl⟩
    | and _ _ ihl ihr | or _ _ ihl ihr =>
      exact rebuild_operands_iff.2 ⟨_, _, ihl, ihr, rfl⟩

/-- Rebuilding fails if and only if some position has no atom. -/
theorem rebuild?_eq_none_iff :
    s.rebuild? atoms = none ↔ ∃ i ∈ s.indices, atoms.length ≤ i := by
  induction s with
  | atom i => simp [rebuild?, indices]
  | not s ih => rw [rebuild?, Option.map_eq_none_iff, ih, indices]
  | and s t ihs iht | or s t ihs iht =>
    rw [rebuild?, rebuild_operands_eq_none_iff, ihs, iht]
    simp only [indices, List.mem_append, or_and_right, exists_or]

/-- The skeleton of what has been rebuilt has the same connectives. -/
theorem Rebuilds.sameShape (h : s.Rebuilds atoms f) (start : Nat) :
    (f.skeletonFrom start).SameShape s := by
  induction h generalizing start with
  | @atom i a _ => cases a <;> exact .atom start i
  | not _ ih => exact .not (ih start)
  | and _ _ ihl ihr => exact .and (ihl start) (ihr _)
  | or _ _ ihl ihr => exact .or (ihl start) (ihr _)

end Skeleton

/-! ## Taking a formula apart -/

namespace Formula

/-- The skeleton of a formula is rebuilt with its atoms, wherever they stand in a list. -/
theorem rebuilds_skeletonFrom (f : Formula) (before after : List Atom) :
    (f.skeletonFrom before.length).Rebuilds (before ++ (f.atoms ++ after)) f := by
  induction f generalizing before after with
  | base p => exact .atom (a := .base p) (by simp [atoms])
  | compare op l r => exact .atom (a := .compare op l r) (by simp [atoms])
  | not f ih => exact .not (ih before after)
  | and l r ihl ihr | or l r ihl ihr =>
    -- the atoms of the right operand stand behind those of the left one
    have hleft := ihl before (r.atoms ++ after)
    have hright := ihr (before ++ l.atoms) after
    rw [List.length_append, List.append_assoc] at hright
    rw [atoms, List.append_assoc]
    constructor
    · exact hleft
    · exact hright

/-- A formula is rebuilt from its skeleton and its atoms. -/
theorem rebuilds_skeleton (f : Formula) : f.skeleton.Rebuilds f.atoms f := by
  have h := f.rebuilds_skeletonFrom [] []
  rwa [List.append_nil, List.nil_append] at h

/-- The skeleton refers to every atom once, in order. -/
theorem indices_skeletonFrom (f : Formula) (start : Nat) :
    (f.skeletonFrom start).indices = List.range' start f.atoms.length := by
  induction f generalizing start with
  | base p | compare op l r => rfl
  | not f ih => exact ih start
  | and l r ihl ihr | or l r ihl ihr =>
    rw [skeletonFrom, Skeleton.indices, ihl, ihr, List.range'_append_1, atoms, List.length_append]

/-- The complexity of the skeleton is the number of formulas in the formula. -/
theorem complexity_skeletonFrom (f : Formula) (start : Nat) :
    (f.skeletonFrom start).complexity = f.parts.length := by
  induction f generalizing start with
  | base p | compare op l r => rfl
  | not f ih =>
    rw [skeletonFrom, Skeleton.complexity, ih, parts, List.length_cons, Nat.add_comm]
  | and l r ihl ihr | or l r ihl ihr =>
    rw [skeletonFrom, Skeleton.complexity, ihl, ihr, parts, List.length_cons, List.length_append]
    omega

end Formula

/-- Analysis loses nothing: the atoms and the skeleton of a constraint rebuild its body, the
skeleton refers to the atoms in order and to each once, and its complexity counts the negations,
conjunctions, disjunctions, comparisons and predicates of the body.  A skeleton of any origin
cannot be rebuilt if and only if it refers to an atom that is not there, and what is rebuilt has a
skeleton of its shape. -/
theorem Constraint.analysis_rebuilds :
    (∀ c : Constraint,
        c.body.skeleton.rebuild? c.body.atoms = some c.body ∧
          c.body.skeleton.indices = List.range c.body.atoms.length ∧
          c.body.skeleton.complexity = c.body.parts.length) ∧
      ∀ (s : Skeleton) (atoms : List Atom),
        (s.rebuild? atoms = none ↔ ∃ i ∈ s.indices, atoms.length ≤ i) ∧
          ∀ f, s.rebuild? atoms = some f → f.skeleton.SameShape s := by
  refine ⟨fun c => ⟨?_, ?_, ?_⟩, fun s atoms => ⟨Skeleton.rebuild?_eq_none_iff, ?_⟩⟩
  · exact Skeleton.rebuild?_eq_some_iff.2 c.body.rebuilds_skeleton
  · rw [List.range_eq_range']
    exact c.body.indices_skeletonFrom 0
  · exact c.body.complexity_skeletonFrom 0
  · intro f hf
    exact (Skeleton.rebuild?_eq_some_iff.1 hf).sameShape 0

/-- A skeleton that leaves out one atom and repeats the other one. -/
theorem analysis_rebuilds_repeated :
    let s : Skeleton := .or (.not (.atom 1)) (.atom 1)
    let atoms : List Atom := [.base .inactiveUnlessRedelegated, .base (.permissionExists ⟨"p"⟩)]
    let f : Formula :=
      .or (.not (.base (.permissionExists ⟨"p"⟩))) (.base (.permissionExists ⟨"p"⟩))
    s.rebuild? atoms = some f ∧ f.skeleton.SameShape s := by
  intro s atoms f
  have hrebuilt : s.rebuild? atoms = some f := rfl
  exact ⟨hrebuilt, (Constraint.analysis_rebuilds.2 s atoms).2 f hrebuilt⟩

end Mandate
