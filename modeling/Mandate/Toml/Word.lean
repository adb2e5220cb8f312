import Mandate.Text.Hexadecimal
import Mandate.Toml.Table

/-!
# Words of TOML

Truth values, numbers, dates and times stand without quotes.  Digits may be grouped by single
underscores.  An integer has 64 bits and a sign.  A float may be as small as it likes, but a
positive one that is too large is none.

Main definitions:

* `integer?`, `float?`: numbers.
* `date?`, `time?`: the parts of a moment at the front of a text.
* `isOffset`: the distance from the universal time.
* `word?`: the value of a word.
-/

namespace Mandate
namespace Toml

open Text (hexDigit?)

/-! ## Digits -/

/-- Digits of a class, with single underscores between digits. -/
def groupedDigits? (isDigit : Char → Bool) : List Char → Option (List Char)
  | [] => none
  | [c] => if isDigit c then some [c] else none
  | c :: '_' :: rest => if isDigit c then (groupedDigits? isDigit rest).map (c :: ·) else none
  | c :: rest => if isDigit c then (groupedDigits? isDigit rest).map (c :: ·) else none

/-- The number of some digits in a base up to sixteen. -/
def numberOf (base : Nat) (cs : List Char) : Nat :=
  cs.foldl (fun n c => base * n + (hexDigit? c).getD 0) 0

/-- Decimal digits without a leading zero. -/
def wholeDigits? (cs : List Char) : Option (List Char) :=
  match groupedDigits? Char.isDigit cs with
  | some ('0' :: _ :: _) => none
  | ds? => ds?

/-! ## Numbers -/

/-- An integer of 64 bits with a sign. -/
def integer? (i : Int) : Option Value :=
  if -0x8000000000000000 ≤ i ∧ i < 0x8000000000000000 then some (.integer i) else none

/-- Some digits times a power of ten are too large for a float: they reach `(2 ^ 54 - 1) * 2 ^ 970`,
the middle between the greatest float and the power of two above it. -/
def isTooLarge (digits : List Char) (power : Int) : Bool :=
  let n := numberOf 10 digits
  let bound := 0x3FFFFFFFFFFFFF <<< 970
  match power with
  | .ofNat p => n != 0 && (308 < p || bound ≤ n * Nat.pow 10 p)
  | .negSucc p => p + 1 < digits.length && bound * Nat.pow 10 (p + 1) ≤ n

/-- The exponent of a float behind its mark: digits that may have a sign. -/
def exponent? : List Char → Option Int
  | '-' :: cs => (groupedDigits? Char.isDigit cs).map fun ds => -Int.ofNat (numberOf 10 ds)
  | '+' :: cs => (groupedDigits? Char.isDigit cs).map fun ds => Int.ofNat (numberOf 10 ds)
  | cs => (groupedDigits? Char.isDigit cs).map fun ds => Int.ofNat (numberOf 10 ds)

/-- The character separates a number from its exponent. -/
def isExponentMark (c : Char) : Bool :=
  c == 'e' || c == 'E'

/-- A float without its sign: a whole part with a fraction, an exponent, or both. -/
def float? (negative : Bool) (cs : List Char) : Option Value :=
  let mantissa := cs.takeWhile (!isExponentMark ·)
  let whole := mantissa.takeWhile (· != '.')
  let fraction? :=
    match mantissa.dropWhile (· != '.') with
    | [] => some []
    | _ :: fraction => groupedDigits? Char.isDigit fraction
  let power? :=
    match cs.dropWhile (!isExponentMark ·) with
    | [] => if mantissa.length = whole.length then none else some 0
    | _ :: exponent => exponent? exponent
  match wholeDigits? whole, fraction?, power? with
  | some whole, some fraction, some power =>
    if !negative && isTooLarge (whole ++ fraction) (power - fraction.length) then none
    else some .real
  | _, _, _ => none

/-- A decimal number without its sign. -/
def unsigned? (negative : Bool) (cs : List Char) : Option Value :=
  match wholeDigits? cs with
  | some ds => integer? (if negative then -Int.ofNat (numberOf 10 ds) else numberOf 10 ds)
  | none => if cs ∈ [['i', 'n', 'f'], ['n', 'a', 'n']] then some .real else float? negative cs

/-! ## Moments -/

/-- The days of a month. -/
def daysOf (year month : Nat) : Nat :=
  if month = 2 then
    if year % 4 = 0 ∧ (year % 100 ≠ 0 ∨ year % 400 = 0) then 29 else 28
  else if month ∈ [4, 6, 9, 11] then 30
  else 31

/-- A number of `width` digits at the front, within bounds, and what follows. -/
def field? (width low high : Nat) (cs : List Char) : Option (Nat × List Char) :=
  let ds := cs.take width
  let n := numberOf 10 ds
  if ds.length = width ∧ ds.all Char.isDigit ∧ low ≤ n ∧ n ≤ high then some (n, cs.drop width)
  else none

/-- The text behind a separator of one character, of which there may be several kinds. -/
def behind? (separators : List Char) : List Char → Option (List Char)
  | [] => none
  | c :: cs => if c ∈ separators then some cs else none

/-- What follows a date at the front. -/
def date? (cs : List Char) : Option (List Char) := do
  let (year, cs) ← field? 4 0 9999 cs
  let (month, cs) ← field? 2 1 12 (← behind? ['-'] cs)
  let (_, cs) ← field? 2 1 (daysOf year month) (← behind? ['-'] cs)
  pure cs

/-- What follows a time of day at the front. -/
def time? (cs : List Char) : Option (List Char) := do
  let (_, cs) ← field? 2 0 23 cs
  let (_, cs) ← field? 2 0 59 (← behind? [':'] cs)
  let (_, cs) ← field? 2 0 60 (← behind? [':'] cs)
  match cs with
  | '.' :: cs =>
    match cs.takeWhile Char.isDigit with
    | [] => none
    | _ :: _ => some (cs.dropWhile Char.isDigit)
  | cs => some cs

/-- The distance of a local time from the universal one. -/
def isOffset (cs : List Char) : Bool :=
  cs ∈ [['Z'], ['z']] ||
    (do
      let (_, cs) ← field? 2 0 23 (← behind? ['+', '-'] cs)
      let (_, cs) ← field? 2 0 59 (← behind? [':'] cs)
      if cs.isEmpty then some () else none).isSome

/-- A time of day, with an offset or without. -/
def isTime (cs : List Char) : Bool :=
  match time? cs with
  | some rest => rest.isEmpty || isOffset rest
  | none => false

/-- A date alone. -/
def isDate (cs : List Char) : Bool :=
  (date? cs).any (·.isEmpty)

/-- A date, a time of day without an offset, or a date and a time. -/
def isMoment (cs : List Char) : Bool :=
  isDate cs || (time? cs).any (·.isEmpty) ||
    match (date? cs).bind (behind? ['T', 't', ' ']) with
    | some rest => isTime rest
    | none => false

/-! ## Words -/

/-- An octal digit. -/
def isOctal (c : Char) : Bool :=
  '0' ≤ c && c ≤ '7'

/-- A binary digit. -/
def isBinary (c : Char) : Bool :=
  c == '0' || c == '1'

/-- A hexadecimal digit. -/
def isHexadecimal (c : Char) : Bool :=
  (hexDigit? c).isSome

/-- The number of a word. -/
def number? : List Char → Option Value
  | '0' :: 'x' :: cs => (groupedDigits? isHexadecimal cs).bind (integer? <| numberOf 16 ·)
  | '0' :: 'o' :: cs => (groupedDigits? isOctal cs).bind (integer? <| numberOf 8 ·)
  | '0' :: 'b' :: cs => (groupedDigits? isBinary cs).bind (integer? <| numberOf 2 ·)
  | '-' :: cs => unsigned? true cs
  | '+' :: cs => unsigned? false cs
  | cs => unsigned? false cs

/-- The value of a word. -/
def word? (cs : List Char) : Option Value :=
  if cs = ['t', 'r', 'u', 'e'] then some (.bool true)
  else if cs = ['f', 'a', 'l', 's', 'e'] then some (.bool false)
  else if isMoment cs then some .date
  else number? cs

/-- The character cannot stand in a word. -/
def endsWord (c : Char) : Bool :=
  c ∈ [' ', '\t', '\n', ',', ']', '\x7d', '#']

/-- The word at the front, and what follows.  A space may stand between a date and a time. -/
def takeWord (cs : List Char) : List Char × List Char :=
  let word := cs.takeWhile (!endsWord ·)
  let rest := cs.dropWhile (!endsWord ·)
  match isDate word, rest with
  | true, ' ' :: more =>
    let time := more.takeWhile (!endsWord ·)
    if isTime time then (word ++ ' ' :: time, more.dropWhile (!endsWord ·)) else (word, rest)
  | _, _ => (word, rest)

end Toml
end Mandate
