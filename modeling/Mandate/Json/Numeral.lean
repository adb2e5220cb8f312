import Mandate.Json.Basic
import Mandate.Text.Decimal

/-!
# JSON numbers

A number is a whole part, a fraction and an exponent, all in decimal digits.  Integers of 64 bits
are kept.  Of other numbers only the size matters: one that is too large denotes nothing.  Its size
is estimated as a computer does that works with words of 64 bits and with binary numbers of 53
figures: from the leading digits that fit a word, and from the power of ten that is left.

Main definitions:

* `Numeral`, `numeral?`: a number as it is written.
* `rounded`: a number cut to 53 binary figures.
* `Numeral.overflows`: the estimate reaches `2 ^ 1024`.
* `Numeral.value`: the value that a number denotes.
-/

namespace Mandate
namespace Json

/-! ## Parts of a number -/

/-- The parts of a number as it is written. -/
structure Numeral where
  negative : Bool
  whole : List Char
  fraction : Option (List Char)
  exponent : Option (Bool × List Char)

/-- The digits at the front of a text and the rest. -/
def digits (cs : List Char) : List Char × List Char :=
  (cs.takeWhile Char.isDigit, cs.dropWhile Char.isDigit)

/-- The digits of a fraction, after its point. -/
def fractionPart : List Char → Option (Option (List Char) × List Char)
  | '.' :: rest =>
    match digits rest with
    | ([], _) => none
    | (ds, rest) => some (some ds, rest)
  | rest => some (none, rest)

/-- The sign and digits of an exponent. -/
def exponentPart : List Char → Option (Option (Bool × List Char) × List Char)
  | c :: rest =>
    if c = 'e' ∨ c = 'E' then
      let (negative, rest) :=
        match rest with
        | '-' :: rest => (true, rest)
        | '+' :: rest => (false, rest)
        | rest => (false, rest)
      match digits rest with
      | ([], _) => none
      | (ds, rest) => some (some (negative, ds), rest)
    else some (none, c :: rest)
  | [] => some (none, [])

/-- The number at the front of a text.  A whole part has no leading zero. -/
def numeral? (cs : List Char) : Option (Numeral × List Char) :=
  let (negative, cs) :=
    match cs with
    | '-' :: cs => (true, cs)
    | cs => (false, cs)
  match digits cs with
  | ([], _) => none
  | (whole, rest) =>
    if whole.head? = some '0' ∧ whole.length ≠ 1 then none
    else
      match fractionPart rest with
      | none => none
      | some (fraction, rest) =>
        match exponentPart rest with
        | none => none
        | some (exponent, rest) => some (⟨negative, whole, fraction, exponent⟩, rest)

/-! ## Sizes -/

/-- Appends digits to a number as long as it stays a word of 64 bits; the digits that are left. -/
def extendWord (n : Nat) : List Char → Nat × List Char
  | [] => (n, [])
  | d :: ds =>
    let longer := Nat.ofDigitChars 10 [d] n
    if longer < 0x10000000000000000 then extendWord longer ds else (n, d :: ds)

/-- The number with 53 binary figures that is next to a number; of two, the one whose last figure
is zero. -/
def rounded (n : Nat) : Nat :=
  let unit := 1 <<< (n.log2 + 1 - 53)
  let cut := n / unit
  let rest := 2 * (n % unit)
  if unit < rest || (rest == unit && cut % 2 == 1) then (cut + 1) * unit else cut * unit

/-- The exponent that is written. -/
def Numeral.power (n : Numeral) : Int :=
  match n.exponent with
  | none => 0
  | some (true, ds) => -Int.ofNat (Nat.ofDigitChars 10 ds 0)
  | some (false, ds) => Int.ofNat (Nat.ofDigitChars 10 ds 0)

/-- The leading digits as a word, and the power of ten to multiply it with.  Digits of the whole
part that are left raise the power; those of the fraction do not count. -/
def Numeral.scaled (n : Numeral) : Nat × Int :=
  let (word, above) := extendWord 0 n.whole
  let fraction := n.fraction.getD []
  let (word, below) := extendWord word fraction
  (word, n.power + above.length - (fraction.length - below.length : Nat))

/-- The number is too large. -/
def Numeral.overflows (n : Numeral) : Bool :=
  match n.scaled with
  | (0, _) => false
  | (_, .negSucc _) => false
  | (word, .ofNat power) =>
    308 < power || (1 <<< 1024) ≤ rounded (rounded word * rounded (Nat.pow 10 power))

/-! ## Values -/

/-- The integer, if the number is one that is kept. -/
def Numeral.integer? (n : Numeral) : Option Int :=
  match n.fraction, n.exponent with
  | none, none =>
    let m := Nat.ofDigitChars 10 n.whole 0
    let i : Int := if n.negative then -Int.ofNat m else Int.ofNat m
    if fits i && !(n.negative && m == 0) then some i else none
  | _, _ => none

/-- The value of a number. -/
def Numeral.value (n : Numeral) : Json :=
  match n.integer? with
  | some i => .integer i
  | none => if n.overflows then .void else .real

end Json
end Mandate
