import Mandate.Evaluation

/-!
# Kleene's connectives

Three-valued truth is an optional truth value, and what has no value is undecided.  A connective
that is decided stays as it is when undecided operands become decided.  Conjunction can be read
along a list in any grouping, and pairs of negations cancel, although a formula or its negation
need not hold.

Main results:

- Theorems `not_mono`, `and_mono`, `or_mono`: deciding operands keeps what is decided.
- Theorem `strict_mono`: the same for operators on numbers, which need all operands.
- Theorems `and_eq_some_iff`, `or_eq_some_iff`: when a connective is decided.
- Theorem `not_not`: a pair of negations cancels.
- Definition `all`: the conjunction of a list.
- Theorem `all_append`: the conjunction of two lists in a row.
-/

namespace Mandate
namespace Kleene

variable {x x' y y' : Option Bool} {b : Bool}

/-- An operand that is decided decides the connective in the same way, whatever becomes of one that
is not. -/
theorem not_mono (hx : ∀ a, x = some a → x' = some a) (h : Kleene.not x = some b) :
    Kleene.not x' = some b := by
  cases x with
  | none => cases h
  | some a => rwa [hx a rfl]

theorem and_eq_some_iff : Kleene.and x y = some b ↔
    (b = false ∧ (x = some false ∨ y = some false)) ∨
      (b = true ∧ x = some true ∧ y = some true) := by
  rcases x with _ | _ | _ <;> rcases y with _ | _ | _ <;> simp [Kleene.and, eq_comm]

theorem or_eq_some_iff : Kleene.or x y = some b ↔
    (b = true ∧ (x = some true ∨ y = some true)) ∨
      (b = false ∧ x = some false ∧ y = some false) := by
  rcases x with _ | _ | _ <;> rcases y with _ | _ | _ <;> simp [Kleene.or, eq_comm]

theorem and_mono (hx : ∀ a, x = some a → x' = some a) (hy : ∀ a, y = some a → y' = some a)
    (h : Kleene.and x y = some b) : Kleene.and x' y' = some b := by
  rw [and_eq_some_iff] at h ⊢
  exact h.imp (And.imp_right (Or.imp (hx _) (hy _))) (And.imp_right (And.imp (hx _) (hy _)))

theorem or_mono (hx : ∀ a, x = some a → x' = some a) (hy : ∀ a, y = some a → y' = some a)
    (h : Kleene.or x y = some b) : Kleene.or x' y' = some b := by
  rw [or_eq_some_iff] at h ⊢
  exact h.imp (And.imp_right (Or.imp (hx _) (hy _))) (And.imp_right (And.imp (hx _) (hy _)))

/-- An operator that needs both operands keeps the value it has. -/
theorem strict_mono {α : Type} {n m n' m' : Option Int} {op : Int → Int → Option α} {value : α}
    (hn : ∀ a, n = some a → n' = some a) (hm : ∀ a, m = some a → m' = some a)
    (h : (do op (← n) (← m)) = some value) : (do op (← n') (← m')) = some value := by
  rcases Option.bind_eq_some_iff.1 h with ⟨a, ha, h⟩
  rcases Option.bind_eq_some_iff.1 h with ⟨b, hb, h⟩
  rw [hn a ha, hm b hb]
  exact h

/-! ## Laws -/

theorem not_not (x : Option Bool) : Kleene.not (Kleene.not x) = x := by
  rcases x with _ | _ | _ <;> rfl

theorem and_true (x : Option Bool) : Kleene.and x (some true) = x := by
  rcases x with _ | _ | _ <;> rfl

theorem true_and (x : Option Bool) : Kleene.and (some true) x = x := by
  rcases x with _ | _ | _ <;> rfl

theorem and_assoc (x y z : Option Bool) :
    Kleene.and (Kleene.and x y) z = Kleene.and x (Kleene.and y z) := by
  rcases x with _ | _ | _ <;> rcases y with _ | _ | _ <;> rcases z with _ | _ | _ <;> rfl

/-! ## Lists -/

/-- The conjunction of a list; that of nothing is true. -/
def all : List (Option Bool) → Option Bool
  | [] => some true
  | x :: rest => Kleene.and x (all rest)

theorem all_singleton (x : Option Bool) : all [x] = x :=
  and_true x

/-- The conjunction of two lists in a row. -/
theorem all_append (xs ys : List (Option Bool)) :
    all (xs ++ ys) = Kleene.and (all xs) (all ys) := by
  induction xs with
  | nil => exact (true_and (all ys)).symm
  | cons x rest ih => rw [List.cons_append, all, ih, all, and_assoc]

end Kleene
end Mandate
