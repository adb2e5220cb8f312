import Mandate.Proofs.Kleene

/-!
# Evaluation on more facts

A table that has all facts of another one, and possibly more, decides whatever that one decides, in
the same way.  Strict operators need all their operands, so they have no value before and keep the
one they have; of a connective only the undecided side may change.

Main results:

- Definition `Facts.Extends`: a table has all facts of another one.
- Theorems `Term.evaluate_mono`, `Formula.evaluate_mono`: values and truth are kept.
- Theorem `Constraint.evaluate_mono`: so is the truth of a constraint.
-/

namespace Mandate

/-- The table has every fact of the other one, with the same value. -/
def Facts.Extends (more facts : Facts) : Prop :=
  ∀ key value, facts key = some value → more key = some value

variable {facts more : Facts} {owner : PermId}

/-! ## Facts -/

theorem Facts.number_mono {key : FactKey} {n : Int} (hmore : more.Extends facts)
    (h : facts.number key = some n) : more.number key = some n := by
  rcases Option.bind_eq_some_iff.1 h with ⟨value, hvalue, h⟩
  exact Option.bind_eq_some_iff.2 ⟨value, hmore key value hvalue, h⟩

theorem Facts.truth_mono {key : FactKey} {b : Bool} (hmore : more.Extends facts)
    (h : facts.truth key = some b) : more.truth key = some b := by
  rcases Option.bind_eq_some_iff.1 h with ⟨value, hvalue, h⟩
  exact Option.bind_eq_some_iff.2 ⟨value, hmore key value hvalue, h⟩

/-! ## Constraints -/

theorem Term.evaluate_mono {t : Term} {n : Int} (hmore : more.Extends facts)
    (h : t.evaluate facts = some n) : t.evaluate more = some n := by
  induction t generalizing n with
  | literal q => exact h
  | add l r ihl ihr | sub l r ihl ihr => exact Kleene.strict_mono (fun _ => ihl) (fun _ => ihr) h
  | _ => exact Facts.number_mono hmore h

theorem Predicate.evaluate_mono {p : Predicate} {b : Bool} (hmore : more.Extends facts)
    (h : p.evaluate facts owner = some b) : p.evaluate more owner = some b := by
  rcases Option.bind_eq_some_iff.1 h with ⟨key, hkey, h⟩
  refine Option.bind_eq_some_iff.2 ⟨key, hkey, ?_⟩
  cases p with
  | maxDelegationDepth limit | rateLimit limit period =>
    exact Kleene.strict_mono (fun _ => Facts.number_mono hmore)
      (fun _ => Term.evaluate_mono hmore) h
  | _ => exact Facts.truth_mono hmore h

theorem Formula.evaluate_mono {f : Formula} {b : Bool} (hmore : more.Extends facts)
    (h : f.evaluate facts owner = some b) : f.evaluate more owner = some b := by
  induction f generalizing b with
  | not f ih => exact Kleene.not_mono (fun _ => ih) h
  | and l r ihl ihr => exact Kleene.and_mono (fun _ => ihl) (fun _ => ihr) h
  | or l r ihl ihr => exact Kleene.or_mono (fun _ => ihl) (fun _ => ihr) h
  | compare op l r =>
    exact Kleene.strict_mono (fun _ => Term.evaluate_mono hmore)
      (fun _ => Term.evaluate_mono hmore) h
  | base p => exact Predicate.evaluate_mono hmore h

/-- More facts do not overturn what is decided. -/
theorem Constraint.evaluate_mono {c : Constraint} {b : Bool} (hmore : more.Extends facts)
    (h : c.evaluate facts = some b) : c.evaluate more = some b :=
  Formula.evaluate_mono hmore h

end Mandate
