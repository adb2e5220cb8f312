/-!
# Decimal numerals

A natural number is written with the fewest decimal digits, an integer with a minus sign in front
of its absolute value when it is negative.  Reading takes any number of leading zeros.

Main definitions:

* `ofNat`, `ofInt`: the numeral of a number.
* `toNat?`: the number of a numeral, if the text is one.

Main result:

* `toNat?_ofNat`: reading a written numeral gives the number back.
-/

namespace Mandate
namespace Decimal

/-- The decimal numeral of a natural number. -/
def ofNat (n : Nat) : List Char :=
  Nat.toDigits 10 n

/-- The decimal numeral of an integer. -/
def ofInt : Int → List Char
  | .ofNat n => ofNat n
  | .negSucc n => '-' :: ofNat (n + 1)

/-- The numeral of a natural number as a string. -/
def natText (n : Nat) : String :=
  String.ofList (ofNat n)

/-- The numeral of an integer as a string. -/
def intText (i : Int) : String :=
  String.ofList (ofInt i)

/-- A numeral is one or more ASCII digits. -/
def isNumeral (cs : List Char) : Bool :=
  !cs.isEmpty && cs.all Char.isDigit

/-- The number that a numeral denotes. -/
def toNat? (cs : List Char) : Option Nat :=
  if isNumeral cs then some (Nat.ofDigitChars 10 cs 0) else none

/-- The number denoted by a numeral that may carry a minus sign. -/
def toInt? : List Char → Option Int
  | '-' :: cs => (toNat? cs).map fun n => -Int.ofNat n
  | cs => (toNat? cs).map Int.ofNat

theorem isDigit_of_mem_ofNat {n : Nat} {c : Char} (h : c ∈ ofNat n) : c.isDigit = true :=
  Nat.isDigit_of_mem_toDigits (by decide) (by decide) h

@[simp]
theorem ofNat_ne_nil (n : Nat) : ofNat n ≠ [] :=
  Nat.toDigits_ne_nil

theorem isNumeral_ofNat (n : Nat) : isNumeral (ofNat n) = true := by
  have hne : (ofNat n).isEmpty = false := by
    cases h : ofNat n with
    | nil => exact absurd h (ofNat_ne_nil n)
    | cons _ _ => rfl
  simp only [isNumeral, hne, Bool.not_false, Bool.true_and, List.all_eq_true]
  exact fun c hc => isDigit_of_mem_ofNat hc

/-- Reading a written numeral gives the number back. -/
@[simp]
theorem toNat?_ofNat (n : Nat) : toNat? (ofNat n) = some n := by
  rw [toNat?, if_pos (isNumeral_ofNat n), ofNat, Nat.ofDigitChars_ten_toDigits]

/-- Leading zeros do not change the number that is read. -/
theorem toNat?_zeros (k n : Nat) : toNat? (List.replicate k '0' ++ ofNat n) = some n := by
  have h : isNumeral (List.replicate k '0' ++ ofNat n) = true := by
    have hall : (List.replicate k '0' ++ ofNat n).all Char.isDigit = true := by
      simp only [List.all_eq_true, List.mem_append, List.mem_replicate]
      rintro c (⟨_, rfl⟩ | hc)
      · decide
      · exact isDigit_of_mem_ofNat hc
    have hne : (List.replicate k '0' ++ ofNat n).isEmpty = false := by
      cases hd : ofNat n with
      | nil => exact absurd hd (ofNat_ne_nil n)
      | cons _ _ => simp
    simp [isNumeral, hne, hall]
  rw [toNat?, if_pos h]
  simp [ofNat, Nat.ofDigitChars_append, Nat.ofDigitChars_replicate_zero,
    Nat.ofDigitChars_ten_toDigits]

end Decimal
end Mandate
