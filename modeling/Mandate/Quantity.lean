import Mandate.Text.Decimal

/-!
# Exact quantities

Literals and facts are whole numbers of 128 bits, in the base unit of the chain.  Evaluation works
on signed numbers of the same width, so a quantity may be too large to take part in it.

Main definitions:

* `Quantity`: a whole number of 128 bits.
* `inRange`: the evaluation range, the signed numbers of 128 bits.
* `checked`: an integer, if it lies in the evaluation range.
* `Quantity.value?`: the quantity as a number of the evaluation range.
-/

namespace Mandate

/-- The first number that needs more than 128 bits. -/
abbrev Quantity.bound : Nat := 0x100000000000000000000000000000000

/-- The first number that needs more than 127 bits, the first beyond the evaluation range. -/
abbrev rangeEnd : Nat := 0x80000000000000000000000000000000

/-- A whole number of 128 bits. -/
@[ext]
structure Quantity where
  toNat : Nat
  isLt : toNat < Quantity.bound
  deriving DecidableEq, Hashable

namespace Quantity

/-- The quantity of a number, if it is small enough. -/
def ofNat? (n : Nat) : Option Quantity :=
  if h : n < bound then some ⟨n, h⟩ else none

/-- The decimal numeral. -/
def text (q : Quantity) : String :=
  Decimal.natText q.toNat

/-- The quantity lies in the evaluation range. -/
def fits (q : Quantity) : Bool :=
  q.toNat < rangeEnd

end Quantity

/-- The integers of the evaluation range. -/
def inRange : Int → Bool
  | .ofNat n => n < rangeEnd
  -- this is `-(n + 1)`
  | .negSucc n => n < rangeEnd

/-- An integer, if evaluation can represent it. -/
def checked (i : Int) : Option Int :=
  if inRange i then some i else none

/-- The quantity as a number of the evaluation range. -/
def Quantity.value? (q : Quantity) : Option Int :=
  checked q.toNat

@[simp]
theorem Quantity.ofNat?_toNat (q : Quantity) : Quantity.ofNat? q.toNat = some q :=
  dif_pos q.isLt

theorem Quantity.ofNat?_eq_none_iff {n : Nat} : Quantity.ofNat? n = none ↔ Quantity.bound ≤ n := by
  simp [Quantity.ofNat?]

theorem Quantity.toNat_of_ofNat? {n : Nat} {q : Quantity} (h : Quantity.ofNat? n = some q) :
    q.toNat = n := by
  unfold Quantity.ofNat? at h
  split at h
  · simpa using congrArg (Option.map Quantity.toNat) h.symm
  · simp at h

/-- The evaluation range is that of signed numbers of 128 bits. -/
theorem inRange_iff (i : Int) : inRange i = true ↔ -(rangeEnd : Int) ≤ i ∧ i < rangeEnd := by
  cases i with
  | ofNat n =>
    rw [inRange, decide_eq_true_eq, Int.ofNat_eq_natCast]
    omega
  | negSucc n =>
    rw [inRange, decide_eq_true_eq, Int.negSucc_eq]
    omega

theorem Quantity.value?_eq (q : Quantity) :
    q.value? = if q.fits then some (q.toNat : Int) else none := by
  have h : inRange (q.toNat : Int) = q.fits := by
    rw [Bool.eq_iff_iff, inRange_iff, Quantity.fits, decide_eq_true_eq]
    omega
  rw [Quantity.value?, checked, h]

theorem checked_eq_some_iff {i j : Int} : checked i = some j ↔ inRange i = true ∧ i = j := by
  simp [checked]

end Mandate
