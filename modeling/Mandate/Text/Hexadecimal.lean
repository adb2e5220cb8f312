/-!
# Hexadecimal numerals

Main definitions:

* `hexDigit?`: the number of a hexadecimal digit.
* `hexNumber?`: the number of some hexadecimal digits.
* `charOf?`: the character with a number, if there is one.
-/

namespace Mandate
namespace Text

/-- The number of a hexadecimal digit of either case. -/
def hexDigit? (c : Char) : Option Nat :=
  if '0' ≤ c ∧ c ≤ '9' then some (c.toNat - '0'.toNat)
  else if 'a' ≤ c ∧ c ≤ 'f' then some (c.toNat - 'a'.toNat + 10)
  else if 'A' ≤ c ∧ c ≤ 'F' then some (c.toNat - 'A'.toNat + 10)
  else none

/-- Extends a number by hexadecimal digits. -/
def hexNumberFrom? (n : Nat) : List Char → Option Nat
  | [] => some n
  | c :: cs =>
    match hexDigit? c with
    | some d => hexNumberFrom? (16 * n + d) cs
    | none => none

/-- The number of some hexadecimal digits. -/
def hexNumber? (cs : List Char) : Option Nat :=
  hexNumberFrom? 0 cs

/-- The character with a number, if there is one. -/
def charOf? (n : Nat) : Option Char :=
  if h : n.isValidChar then some (Char.ofNatAux n h) else none

/-- The character whose number some hexadecimal digits write. -/
def charOfHex? (cs : List Char) : Option Char :=
  (hexNumber? cs).bind charOf?

end Text
end Mandate
