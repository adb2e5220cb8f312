import Mathlib.Data.List.Forall2
import Mandate.Proofs.Analysis.Rebuilding
import Mandate.Proofs.Kleene

/-!
# Clauses

A formula is split into the clauses of the conjunction at its top once pairs of negations are gone.
That is done on skeletons, and comes to the same as cancelling and splitting the formula itself, so
no clause is lost when clauses are rebuilt.  In Kleene's logic the clauses together have the truth
of the formula, also where facts leave some of them undecided.

Main results:

- Definitions `Formula.cancel`, `Formula.clauses`: cancelling and splitting, for formulas.
- Theorems `Skeleton.Rebuilds.cancel`, `Skeleton.Rebuilds.clauses`: the same is done to skeletons.
- Theorem `Formula.conjuncts_eq`: so splitting skeletons splits formulas.
- Theorems `Formula.evaluate_cancel`, `Formula.evaluate_clauses`: both keep the truth of a formula.
- Definition `Formula.IsClause`: what cannot be cancelled or split any more.
- Theorem `Formula.conjuncts_split`: what the clauses of a formula are.
-/

namespace Mandate

/-! ## Cancelling and splitting formulas -/

namespace Formula

/-- The formula without pairs of negations. -/
def cancel : Formula → Formula
  | .not (.not f) => f.cancel
  | .not f => .not f.cancel
  | .and l r => .and l.cancel r.cancel
  | .or l r => .or l.cancel r.cancel
  | .compare op l r => .compare op l r
  | .base p => .base p

/-- The parts of the conjunction at the top of a formula. -/
def clauses : Formula → List Formula
  | .and l r => l.clauses ++ r.clauses
  | f => [f]

theorem cancel_not_of_ne {f : Formula} (h : ∀ g, f ≠ .not g) :
    (Formula.not f).cancel = .not f.cancel := by
  cases f with
  | not f => exact absurd rfl (h f)
  | _ => rfl

theorem clauses_of_ne {f : Formula} (h : ∀ l r, f ≠ .and l r) : f.clauses = [f] := by
  cases f with
  | and l r => exact absurd rfl (h l r)
  | _ => rfl

theorem clauses_ne_nil (f : Formula) : f.clauses ≠ [] := by
  induction f with
  | and l r ihl _ => exact List.append_ne_nil_of_left_ne_nil ihl _
  | _ => exact List.cons_ne_nil _ _

end Formula

/-! ## Skeletons -/

namespace Skeleton

variable {atoms : List Atom} {s : Skeleton} {f : Formula}

/-- Only a negation is rebuilt to one. -/
theorem Rebuilds.ne_not (h : s.Rebuilds atoms f) (hs : ∀ t, s ≠ .not t) (g : Formula) :
    f ≠ .not g := by
  cases h with
  | @atom i a _ => cases a <;> exact Formula.noConfusion
  | @not t f _ => exact absurd rfl (hs t)
  | and _ _ | or _ _ => exact Formula.noConfusion

/-- Pairs of negations are cancelled in a skeleton where they are in what it stands for. -/
theorem Rebuilds.cancel (h : s.Rebuilds atoms f) : s.cancel.Rebuilds atoms f.cancel := by
  fun_induction Skeleton.cancel s generalizing f with
  | case1 i =>
    cases h with
    | @atom _ a ha => cases a <;> exact .atom ha
  | case2 s ih =>
    cases h with
    | not h =>
      cases h with
      | not h =>
        exact (ih h :)
  | case3 s hs ih =>
    cases h with
    | not h =>
      rw [Formula.cancel_not_of_ne (h.ne_not hs)]
      exact .not (ih h)
  | case4 s t ihs iht =>
    cases h with
    | and hl hr => exact .and (ihs hl) (iht hr)
  | case5 s t ihs iht =>
    cases h with
    | or hl hr => exact .or (ihs hl) (iht hr)

/-- The parts of a skeleton stand for the clauses of what it stands for, one by one. -/
theorem Rebuilds.clauses (h : s.Rebuilds atoms f) :
    List.Forall₂ (Rebuilds atoms) s.clauses f.clauses := by
  induction h with
  | @atom i a ha => cases a <;> exact .cons (.atom ha) .nil
  | not h _ => exact .cons (.not h) .nil
  | and _ _ ihl ihr => exact List.rel_append ihl ihr
  | or hl hr _ _ => exact .cons (.or hl hr) .nil

/-- Parts that stand for formulas are all rebuilt. -/
theorem map_rebuild?_of_forall₂ {parts : List Skeleton} {fs : List Formula}
    (h : List.Forall₂ (Rebuilds atoms) parts fs) :
    parts.map (rebuild? atoms) = fs.map some := by
  induction h with
  | nil => rfl
  | cons hpart _ ih =>
    rw [List.map_cons, List.map_cons, ih, rebuild?_eq_some_iff.2 hpart]

end Skeleton

/-! ## Clauses of a formula -/

namespace Formula

variable {facts : Facts} {owner : PermId}

/-- Every part of the skeleton is rebuilt, to the clause in its place. -/
theorem map_rebuild?_clauses (f : Formula) :
    f.skeleton.cancel.clauses.map (Skeleton.rebuild? f.atoms) = f.cancel.clauses.map some :=
  Skeleton.map_rebuild?_of_forall₂ f.rebuilds_skeleton.cancel.clauses

/-- Splitting skeletons splits formulas. -/
theorem conjuncts_eq (f : Formula) : f.conjuncts = f.cancel.clauses := by
  have hfilter : f.conjuncts =
      (f.skeleton.cancel.clauses.map (Skeleton.rebuild? f.atoms)).filterMap id := by
    rw [List.filterMap_map]
    rfl
  rw [hfilter, f.map_rebuild?_clauses, List.filterMap_map]
  exact List.filterMap_some

/-! ### Truth -/

/-- Pairs of negations do not matter. -/
theorem evaluate_cancel (f : Formula) : f.cancel.evaluate facts owner = f.evaluate facts owner := by
  fun_induction cancel f with
  | case1 f ih => rw [evaluate, evaluate, Kleene.not_not, ih]
  | case2 f _ ih => rw [evaluate, evaluate, ih]
  | case3 l r ihl ihr | case4 l r ihl ihr => rw [evaluate, evaluate, ihl, ihr]
  | case5 op l r => rfl
  | case6 p => rfl

/-- The clauses together have the truth of the formula. -/
theorem evaluate_clauses (f : Formula) :
    Kleene.all (f.clauses.map (evaluate facts owner)) = f.evaluate facts owner := by
  induction f with
  | and l r ihl ihr =>
    rw [clauses, List.map_append, Kleene.all_append, ihl, ihr, evaluate]
  | _ => exact Kleene.all_singleton _

/-! ### Normal forms -/

/-- No pair of negations stands anywhere in the formula. -/
def Cancelled (f : Formula) : Prop :=
  ∀ g, .not (.not g) ∉ f.parts

/-- A formula that is no conjunction and holds no pair of negations. -/
structure IsClause (f : Formula) : Prop where
  ne_and : ∀ l r, f ≠ .and l r
  cancelled : f.Cancelled

theorem cancelled_not_iff {f : Formula} :
    (Formula.not f).Cancelled ↔ (∀ g, f ≠ .not g) ∧ f.Cancelled := by
  simp only [Cancelled, parts, List.mem_cons, Formula.not.injEq, not_or, forall_and, eq_comm]

theorem cancelled_operands_iff {f l r : Formula} (hparts : f.parts = f :: (l.parts ++ r.parts))
    (hne : ∀ g, f ≠ .not g) : f.Cancelled ↔ l.Cancelled ∧ r.Cancelled := by
  simp only [Cancelled, hparts, List.mem_cons, List.mem_append, not_or, forall_and]
  exact and_iff_right fun g hg => hne _ hg.symm

theorem cancelled_of_parts {f : Formula} (hparts : f.parts = [f]) (hne : ∀ g, f ≠ .not g) :
    f.Cancelled := by
  intro g hg
  rw [hparts, List.mem_singleton] at hg
  exact hne _ hg.symm

theorem cancelled_and_iff {l r : Formula} :
    (Formula.and l r).Cancelled ↔ l.Cancelled ∧ r.Cancelled :=
  cancelled_operands_iff rfl fun _ => Formula.noConfusion

theorem cancelled_or_iff {l r : Formula} :
    (Formula.or l r).Cancelled ↔ l.Cancelled ∧ r.Cancelled :=
  cancelled_operands_iff rfl fun _ => Formula.noConfusion

/-- What is no negation does not become one. -/
theorem cancel_ne_not {f : Formula} (h : ∀ g, f ≠ .not g) (g : Formula) : f.cancel ≠ .not g := by
  cases f with
  | not f => exact absurd rfl (h f)
  | _ => exact Formula.noConfusion

theorem cancelled_cancel (f : Formula) : f.cancel.Cancelled := by
  fun_induction cancel f with
  | case1 f ih => exact ih
  | case2 f hf ih => exact cancelled_not_iff.2 ⟨cancel_ne_not hf, ih⟩
  | case3 l r ihl ihr => exact cancelled_and_iff.2 ⟨ihl, ihr⟩
  | case4 l r ihl ihr => exact cancelled_or_iff.2 ⟨ihl, ihr⟩
  | case5 op l r => exact cancelled_of_parts rfl fun _ => Formula.noConfusion
  | case6 p => exact cancelled_of_parts rfl fun _ => Formula.noConfusion

/-- Where nothing cancels the formula stays as it is. -/
theorem Cancelled.cancel_eq {f : Formula} (h : f.Cancelled) : f.cancel = f := by
  induction f with
  | not f ih =>
    rcases cancelled_not_iff.1 h with ⟨hne, hf⟩
    rw [cancel_not_of_ne hne, ih hf]
  | and l r ihl ihr =>
    rcases cancelled_and_iff.1 h with ⟨hl, hr⟩
    rw [cancel, ihl hl, ihr hr]
  | or l r ihl ihr =>
    rcases cancelled_or_iff.1 h with ⟨hl, hr⟩
    rw [cancel, ihl hl, ihr hr]
  | _ => rfl

/-- The clauses of what has been cancelled are clauses. -/
theorem Cancelled.isClause {f g : Formula} (h : f.Cancelled) (hg : g ∈ f.clauses) : g.IsClause := by
  induction f with
  | and l r ihl ihr =>
    rcases cancelled_and_iff.1 h with ⟨hl, hr⟩
    rcases List.mem_append.1 hg with hg | hg
    · exact ihl hl hg
    · exact ihr hr hg
  | _ =>
    cases List.mem_singleton.1 hg
    exact ⟨fun _ _ => Formula.noConfusion, h⟩

/-- A clause is its own only clause. -/
theorem IsClause.conjuncts_eq {f : Formula} (h : f.IsClause) : f.conjuncts = [f] := by
  rw [Formula.conjuncts_eq, h.cancelled.cancel_eq, clauses_of_ne h.ne_and]

/-- The clauses of a formula are at least one, and on all facts and for every owner they have
together the truth of the formula.  Every part of the skeleton is rebuilt to a clause, no clause is
a conjunction or holds a pair of negations, and none can be split again. -/
theorem conjuncts_split (f : Formula) :
    (∀ facts owner,
        Kleene.all (f.conjuncts.map (evaluate facts owner)) = f.evaluate facts owner) ∧
      f.conjuncts ≠ [] ∧
      f.skeleton.cancel.clauses.map (Skeleton.rebuild? f.atoms) = f.conjuncts.map some ∧
      ∀ g ∈ f.conjuncts, g.IsClause ∧ g.conjuncts = [g] := by
  rw [f.conjuncts_eq]
  refine ⟨fun facts owner => ?_, f.cancel.clauses_ne_nil, f.map_rebuild?_clauses, ?_⟩
  · rw [evaluate_clauses, evaluate_cancel]
  · intro g hg
    have hclause : g.IsClause := f.cancelled_cancel.isClause hg
    exact ⟨hclause, hclause.conjuncts_eq⟩

/-- A conjunction below two negations is split, and of three negations one is left. -/
theorem conjuncts_split_hidden :
    let p : Formula := .base (.permissionExists ⟨"p"⟩)
    let q : Formula := .base .inactiveUnlessRedelegated
    let f : Formula := .not (.not (.and (.not (.not (.not p))) q))
    .not p ∈ f.conjuncts ∧ (Formula.not p).IsClause ∧ (Formula.not p).conjuncts = [.not p] := by
  intro p q f
  have hmem : .not p ∈ f.conjuncts := by decide
  exact ⟨hmem, f.conjuncts_split.2.2.2 _ hmem⟩

end Formula
end Mandate
