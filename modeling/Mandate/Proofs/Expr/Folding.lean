import Mandate.Analysis.Reads
import Mandate.Evaluation

/-!
# Folding constants

A term that reads no fact has one value on all tables of facts, or none on all of them.  Folding
gives this value: a literal beyond the evaluation range, and a sum or a difference that leaves it,
have no value in either way, also below operators that would come back into the range.

Main results:

- Theorem `Term.constantValue?_eq`: folding is evaluation, for terms that read no fact.
- Theorem `Term.constantValue?_eq_some_iff`: what it means that folding gives a number.
- Theorem `Term.isConstant_iff`: the terms that read no fact.
-/

namespace Mandate
namespace Term

/-- A term is constant if and only if it reads no fact. -/
theorem isConstant_iff (t : Term) : t.isConstant = true ↔ t.reads = [] := by
  induction t with
  | literal q => exact iff_of_true rfl rfl
  | add l r ihl ihr | sub l r ihl ihr =>
    rw [isConstant, Bool.and_eq_true, ihl, ihr, reads, List.append_eq_nil_iff]
  | _ => exact iff_of_false Bool.false_ne_true (List.cons_ne_nil _ _)

/-- Two operands of which at least one has no folded value have none together. -/
theorem bind_fold_eq_none {l r : Term} {x y : Option Int} (f : Int → Int → Option Int)
    (hl : l.isConstant = false → x = none) (hr : r.isConstant = false → y = none)
    (h : (l.isConstant && r.isConstant) = false) : (do f (← x) (← y)) = none := by
  rcases Bool.and_eq_false_iff.1 h with hleft | hright
  · rw [hl hleft]
    rfl
  · rw [hr hright]
    cases x <;> rfl

/-- Only constant terms are folded. -/
theorem constantValue?_eq_none {t : Term} (h : t.isConstant = false) : t.constantValue? = none := by
  induction t with
  | literal q => cases h
  | add l r ihl ihr | sub l r ihl ihr => exact bind_fold_eq_none _ ihl ihr h
  | _ => rfl

/-- Folding a constant term is evaluating it, on any table of facts. -/
theorem constantValue?_eq {t : Term} (h : t.isConstant = true) (facts : Facts) :
    t.constantValue? = t.evaluate facts := by
  induction t with
  | literal q => rfl
  | add l r ihl ihr | sub l r ihl ihr =>
    rw [isConstant, Bool.and_eq_true] at h
    rw [constantValue?, evaluate, ihl h.1, ihr h.2]
  | _ => cases h

/-- Folding gives a number if and only if the term is constant and has that number on every table of
facts. -/
theorem constantValue?_eq_some_iff (t : Term) (v : Int) :
    t.constantValue? = some v ↔ t.isConstant = true ∧ ∀ facts, t.evaluate facts = some v := by
  cases hconstant : t.isConstant with
  | false => simp [constantValue?_eq_none hconstant]
  | true =>
    simp only [true_and]
    constructor
    · intro hvalue facts
      rw [← constantValue?_eq hconstant facts, hvalue]
    · intro hvalue
      rw [constantValue?_eq hconstant fun _ => none, hvalue]

end Term
end Mandate
