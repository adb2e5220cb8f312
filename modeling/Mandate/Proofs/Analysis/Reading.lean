import Mandate.Proofs.Network.Lowering

/-!
# What evaluation reads

The truth of a constraint depends on the facts that it reads, and on no others: two tables that
agree on these give the same answer, whatever else they hold.  A rate limit reads its counter under
the period that its constant comes to, so the period itself reads nothing.

Main results:

- Definition `Facts.Agree`: two tables have the same value, or none, for some keys.
- Theorems `Term.evaluate_congr`, `Predicate.evaluate_congr`, `Formula.evaluate_congr`: agreement on
  what is read along the tree is enough.
- Theorem `Constraint.evaluate_congr`: so is agreement on the facts of a constraint.
- Definitions `Term.parts`, `Formula.computed`: the terms that evaluation computes.
-/

namespace Mandate

/-- The tables have the same value, or none, for each of the keys. -/
def Facts.Agree (facts others : Facts) (keys : List FactKey) : Prop :=
  ∀ key ∈ keys, facts key = others key

variable {facts others : Facts} {owner : PermId}

/-! ## Facts -/

theorem Facts.Agree.mono {keys more : List FactKey} (h : facts.Agree others more)
    (hkeys : keys ⊆ more) : facts.Agree others keys := fun key hkey => h key (hkeys hkey)

theorem Facts.Agree.of_append {keys more : List FactKey} (h : facts.Agree others (keys ++ more)) :
    facts.Agree others keys ∧ facts.Agree others more :=
  ⟨h.mono (List.subset_append_left keys more), h.mono (List.subset_append_right keys more)⟩

theorem Facts.number_congr {key : FactKey} (h : facts key = others key) :
    facts.number key = others.number key := by
  rw [Facts.number, Facts.number, h]

theorem Facts.truth_congr {key : FactKey} (h : facts key = others key) :
    facts.truth key = others.truth key := by
  rw [Facts.truth, Facts.truth, h]

/-! ## Constraints -/

theorem Term.evaluate_congr {t : Term} (h : facts.Agree others t.reads) :
    t.evaluate facts = t.evaluate others := by
  induction t with
  | literal q => rfl
  | add l r ihl ihr | sub l r ihl ihr =>
    rcases h.of_append with ⟨hl, hr⟩
    rw [Term.evaluate, Term.evaluate, ihl hl, ihr hr]
  | _ => exact Facts.number_congr (h _ List.mem_cons_self)

theorem Predicate.evaluate_congr {p : Predicate} (h : facts.Agree others (p.reads owner)) :
    p.evaluate facts owner = p.evaluate others owner := by
  rcases h.of_append with ⟨hown, hbound⟩
  unfold Predicate.evaluate
  cases hkey : FactKey.ofPredicate? owner p with
  | none => rfl
  | some key =>
    have hfact : facts key = others key := hown key (by simp [hkey])
    cases p with
    | maxDelegationDepth limit | rateLimit limit period =>
      simp only [Option.bind_eq_bind, Option.bind_some]
      rw [Facts.number_congr hfact, Term.evaluate_congr hbound]
    | _ => exact Facts.truth_congr hfact

theorem Formula.evaluate_congr {f : Formula} (h : facts.Agree others (f.reads owner)) :
    f.evaluate facts owner = f.evaluate others owner := by
  induction f with
  | not f ih => rw [Formula.evaluate, Formula.evaluate, ih h]
  | and l r ihl ihr | or l r ihl ihr =>
    rcases h.of_append with ⟨hl, hr⟩
    rw [Formula.evaluate, Formula.evaluate, ihl hl, ihr hr]
  | compare op l r =>
    rcases h.of_append with ⟨hl, hr⟩
    rw [Formula.evaluate, Formula.evaluate, Term.evaluate_congr hl, Term.evaluate_congr hr]
  | base p => exact Predicate.evaluate_congr h

/-- Tables that agree on the facts of a constraint give it the same truth. -/
theorem Constraint.evaluate_congr {c : Constraint} (h : facts.Agree others c.referencedFacts) :
    c.evaluate facts = c.evaluate others :=
  Formula.evaluate_congr fun key hkey => h key (FactKey.mem_sorted_iff.2 hkey)

/-! ## What evaluation computes -/

/-- The term and all its parts. -/
def Term.parts : Term → List Term
  | .add l r => .add l r :: (l.parts ++ r.parts)
  | .sub l r => .sub l r :: (l.parts ++ r.parts)
  | leaf => [leaf]

/-- The terms that evaluation computes: the period of a rate limit is none of them. -/
def Predicate.computed : Predicate → List Term
  | .maxDelegationDepth limit | .rateLimit limit _ => limit.parts
  | _ => []

/-- The terms that evaluation computes. -/
def Formula.computed : Formula → List Term
  | .not f => f.computed
  | .and l r | .or l r => l.computed ++ r.computed
  | .compare _ l r => l.parts ++ r.parts
  | .base p => p.computed

end Mandate
