import Mandate.Json.Numeral
import Mandate.Text.Hexadecimal

/-!
# JSON tokens

The tokens of a document and their texts.  A token is read off the front of a text; white space
(space, tab, line feed, carriage return) may stand between tokens.

Main definitions:

* `Token`, `Token.chars`: a token and the one text that is written for it.
* `Token.next`: the token at the front of a text and what follows it.
* `Token.scan`: all tokens of a text.
* `TextUnit`, `joinUnits`: the characters and escaped code units of a text, and the text they
  denote.
-/

namespace Mandate
namespace Json

open Text (hexDigit?)

/-- The two kinds of brackets. -/
inductive Bracket
  | square
  | curly
  deriving DecidableEq

/-- A token of a document. -/
inductive Token
  | opening (b : Bracket)
  | closing (b : Bracket)
  | comma
  | colon
  /-- A text, or nothing where it holds half of a surrogate pair. -/
  | text (s : Option String)
  /-- A number or one of the words `true`, `false` and `null`. -/
  | scalar (j : Json)

/-! ## Texts -/

/-- One piece of a text between quotes: a character, or the number of a `\u` escape. -/
inductive TextUnit
  | char (c : Char)
  | code (u : Nat)

/-- The number of four hexadecimal digits. -/
def codeUnit? (a b c d : Char) : Option Nat := do
  let a ← hexDigit? a
  let b ← hexDigit? b
  let c ← hexDigit? c
  let d ← hexDigit? d
  pure (((a * 16 + b) * 16 + c) * 16 + d)

/-- The character that a backslash and this letter stand for. -/
def escaped? (c : Char) : Option Char :=
  if c = '"' then some '"'
  else if c = '\\' then some '\\'
  else if c = '/' then some '/'
  else if c = 'b' then some '\x08'
  else if c = 'f' then some '\x0c'
  else if c = 'n' then some '\n'
  else if c = 'r' then some '\r'
  else if c = 't' then some '\t'
  else none

/-- The pieces of a text up to its closing quote, and what follows the quote.  Control characters
below the space may only stand as escapes. -/
def textUnits : List Char → Option (List TextUnit × List Char)
  | [] => none
  | c :: rest =>
    if c = '"' then some ([], rest)
    else if c = '\\' then
      match rest with
      | 'u' :: a :: b :: c :: d :: rest =>
        match codeUnit? a b c d, textUnits rest with
        | some u, some (units, rest) => some (.code u :: units, rest)
        | _, _ => none
      | e :: rest =>
        match escaped? e, textUnits rest with
        | some c, some (units, rest) => some (.char c :: units, rest)
        | _, _ => none
      | [] => none
    else if c.toNat < 0x20 then none
    else
      match textUnits rest with
      | some (units, rest) => some (.char c :: units, rest)
      | none => none

/-- The code unit is the first half of a surrogate pair. -/
def isHighHalf (u : Nat) : Bool :=
  0xD800 ≤ u && u ≤ 0xDBFF

/-- The code unit is the second half of a surrogate pair. -/
def isLowHalf (u : Nat) : Bool :=
  0xDC00 ≤ u && u ≤ 0xDFFF

/-- The character of a surrogate pair. -/
def pairChar (high low : Nat) : Char :=
  Char.ofNat (0x10000 + (high - 0xD800) * 0x400 + (low - 0xDC00))

/-- The text that the pieces denote, if no half of a surrogate pair stands alone. -/
def joinUnits : List TextUnit → Option (List Char)
  | [] => some []
  | .char c :: rest => (joinUnits rest).map (c :: ·)
  | .code u :: rest =>
    if isHighHalf u then
      match rest with
      | .code v :: rest =>
        if isLowHalf v then (joinUnits rest).map (pairChar u v :: ·) else none
      | _ => none
    else if isLowHalf u then none
    else (joinUnits rest).map (Char.ofNat u :: ·)

/-- The two-digit hexadecimal numeral, lower case, of a number below 256. -/
def hexPair (n : Nat) : List Char :=
  [Nat.digitChar (n / 16), Nat.digitChar (n % 16)]

/-- A character as it is written inside a text. -/
def escapedChar (c : Char) : List Char :=
  if c = '"' then ['\\', '"']
  else if c = '\\' then ['\\', '\\']
  else if c = '\x08' then ['\\', 'b']
  else if c = '\x0c' then ['\\', 'f']
  else if c = '\n' then ['\\', 'n']
  else if c = '\r' then ['\\', 'r']
  else if c = '\t' then ['\\', 't']
  else if c.toNat < 0x20 then ['\\', 'u', '0', '0'] ++ hexPair c.toNat
  else [c]

/-- A text between quotes. -/
def quotedChars (s : List Char) : List Char :=
  '"' :: (s.flatMap escapedChar ++ ['"'])

/-! ## Tokens -/

/-- White space between tokens. -/
def isSpace (c : Char) : Bool :=
  c == ' ' || c == '\t' || c == '\n' || c == '\r'

/-- The text behind a word, if the text starts with it. -/
def afterWord : List Char → List Char → Option (List Char)
  | [], cs => some cs
  | w :: ws, c :: cs => if w = c then afterWord ws cs else none
  | _ :: _, [] => none

/-- The token at the front of a text that does not start with white space. -/
def Token.next : List Char → Option (Token × List Char)
  | [] => none
  | c :: rest =>
    if c = '[' then some (.opening .square, rest)
    else if c = ']' then some (.closing .square, rest)
    else if c = '\x7b' then some (.opening .curly, rest)
    else if c = '\x7d' then some (.closing .curly, rest)
    else if c = ',' then some (.comma, rest)
    else if c = ':' then some (.colon, rest)
    else if c = '"' then
      (textUnits rest).map fun (units, rest) => (.text ((joinUnits units).map String.ofList), rest)
    else if c = 'n' then (afterWord ['u', 'l', 'l'] rest).map (.scalar .null, ·)
    else if c = 't' then (afterWord ['r', 'u', 'e'] rest).map (.scalar (.bool true), ·)
    else if c = 'f' then (afterWord ['a', 'l', 's', 'e'] rest).map (.scalar (.bool false), ·)
    else (numeral? (c :: rest)).map fun (n, rest) => (.scalar n.value, rest)

/-- The tokens of a text, at most `bound` of them. -/
def Token.scanUpTo : Nat → List Char → Option (List Token)
  | 0, _ => none
  | bound + 1, cs =>
    match cs.dropWhile isSpace with
    | [] => some []
    | c :: rest =>
      match Token.next (c :: rest) with
      | none => none
      | some (token, rest) => (Token.scanUpTo bound rest).map (token :: ·)

/-- The tokens of a text.  A text has no more tokens than characters. -/
def Token.scan (cs : List Char) : Option (List Token) :=
  Token.scanUpTo (cs.length + 1) cs

/-- The text of a scalar. -/
def scalarChars : Json → List Char
  | .bool true => ['t', 'r', 'u', 'e']
  | .bool false => ['f', 'a', 'l', 's', 'e']
  | .integer i => Decimal.ofInt i
  | .real => ['0', '.', '0']
  | .void => ['1', 'e', '9', '9', '9']
  | _ => ['n', 'u', 'l', 'l']

/-- The text that is written for a token. -/
def Token.chars : Token → List Char
  | .opening .square => ['[']
  | .closing .square => [']']
  | .opening .curly => ['\x7b']
  | .closing .curly => ['\x7d']
  | .comma => [',']
  | .colon => [':']
  | .text (some s) => quotedChars s.toList
  | .text none => quotedChars []
  | .scalar j => scalarChars j

end Json
end Mandate
