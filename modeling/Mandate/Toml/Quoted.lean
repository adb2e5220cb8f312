import Mandate.Text.Hexadecimal

/-!
# Quoted texts and keys of TOML

A text stands between double quotes, where a backslash starts an escape, or between single quotes,
where nothing does.  Between triple quotes it may run over lines: a line feed right behind the
opening quotes does not count, and a backslash at the end of a line swallows all white space up to
the next text.  A carriage return in front of a line feed is taken to be gone already.

Main definitions:

* `unescape`: the text that is written with escapes.
* `text?`: a text at the front.
* `key?`: a key at the front.
-/

namespace Mandate
namespace Toml

open Text (charOfHex?)

/-! ## Characters -/

/-- White space inside a line. -/
def isBlank (c : Char) : Bool :=
  c == ' ' || c == '\t'

/-- The text without the white space at its front. -/
def skipBlanks (cs : List Char) : List Char :=
  cs.dropWhile isBlank

/-- A character that may not stand in a line of text. -/
def isControl (c : Char) : Bool :=
  (c.toNat < 0x20 && c != '\t') || c.toNat == 0x7F

/-- The character of a one-letter escape. -/
def escaped? (c : Char) : Option Char :=
  if c = '"' then some '"'
  else if c = '\\' then some '\\'
  else if c = 'b' then some '\x08'
  else if c = 'f' then some '\x0c'
  else if c = 'n' then some '\n'
  else if c = 'r' then some '\r'
  else if c = 't' then some '\t'
  else none

/-! ## Texts -/

/-- Nothing but white space follows on the line. -/
def endsLine (cs : List Char) : Bool :=
  (skipBlanks cs).head? == some '\n'

/-- The text that is written with escapes.  White space and line feeds are left out where
`folding` holds. -/
def unescape : (folding : Bool) → List Char → Option (List Char)
  | _, [] => some []
  | folding, c :: rest =>
    if folding && (isBlank c || c == '\n') then unescape true rest
    else if c = '\\' then
      if endsLine rest then unescape true rest
      else
        match rest with
        | [] => none
        | 'u' :: a :: b :: c :: d :: rest =>
          match charOfHex? [a, b, c, d], unescape false rest with
          | some c, some cs => some (c :: cs)
          | _, _ => none
        | 'U' :: a :: b :: c :: d :: e :: f :: g :: h :: rest =>
          match charOfHex? [a, b, c, d, e, f, g, h], unescape false rest with
          | some c, some cs => some (c :: cs)
          | _, _ => none
        | e :: rest =>
          match escaped? e, unescape false rest with
          | some c, some cs => some (c :: cs)
          | _, _ => none
    else (unescape false rest).map (c :: ·)

/-- The characters up to the closing quote on the same line, and what follows it. -/
def uptoQuote (quote : Char) : List Char → Option (List Char × List Char)
  | [] => none
  | c :: rest =>
    if c = quote then some ([], rest)
    else if isControl c then none
    else if c = '\\' ∧ quote = '"' then
      match rest with
      | [] => none
      | e :: rest =>
        if isControl e then none
        else (uptoQuote quote rest).map fun (cs, rest) => (c :: e :: cs, rest)
    else (uptoQuote quote rest).map fun (cs, rest) => (c :: cs, rest)

/-- The characters up to three closing quotes, and what follows them.  Of more quotes in a row, up
to two belong to the text. -/
def uptoQuotes (quote : Char) : List Char → Option (List Char × List Char)
  | [] => none
  | c :: rest =>
    if c = quote ∧ rest.take 2 = [quote, quote] then
      let rest := rest.drop 2
      let more := min 2 (rest.takeWhile (· == quote)).length
      some (rest.take more, rest.drop more)
    else if isControl c ∧ c ≠ '\n' then none
    else if c = '\\' ∧ quote = '"' then
      match rest with
      | [] => none
      | e :: rest => (uptoQuotes quote rest).map fun (cs, rest) => (c :: e :: cs, rest)
    else (uptoQuotes quote rest).map fun (cs, rest) => (c :: cs, rest)

/-- The text that stands between quotes. -/
def textBetween? (quote : Char) (cs : List Char) : Option String :=
  (if quote = '"' then unescape false cs else some cs).map String.ofList

/-- A text on one line, behind its opening quote. -/
def lineText? (quote : Char) (cs : List Char) : Option (String × List Char) := do
  let (cs, rest) ← uptoQuote quote cs
  pure (← textBetween? quote cs, rest)

/-- A text over several lines, behind its opening quotes. -/
def linesText? (quote : Char) (cs : List Char) : Option (String × List Char) := do
  let cs := match cs with
    | '\n' :: cs => cs
    | cs => cs
  let (cs, rest) ← uptoQuotes quote cs
  pure (← textBetween? quote cs, rest)

/-- The character opens a text. -/
def isQuote (c : Char) : Bool :=
  c == '"' || c == '\''

/-- A text behind its first quote. -/
def text? (quote : Char) (cs : List Char) : Option (String × List Char) :=
  if cs.take 2 = [quote, quote] then linesText? quote (cs.drop 2) else lineText? quote cs

/-! ## Keys -/

/-- The characters of a bare key. -/
def isBareChar (c : Char) : Bool :=
  c.isAlphanum || c == '_' || c == '-'

/-- One part of a key at the front. -/
def keyPart? (cs : List Char) : Option (String × List Char) :=
  match cs with
  | [] => none
  | c :: rest =>
    if isQuote c then lineText? c rest
    else if isBareChar c then
      some (String.ofList (cs.takeWhile isBareChar), cs.dropWhile isBareChar)
    else none

/-- A key has fewer parts than this. -/
def keyLimit : Nat := 80

/-- At most `bound` parts of a key with points between them: the leading parts, the last part, and
what follows behind white space. -/
def keyUpTo? : (bound : Nat) → List Char → Option (List String × String × List Char)
  | 0, _ => none
  | bound + 1, cs =>
    match keyPart? (skipBlanks cs) with
    | none => none
    | some (part, rest) =>
      match skipBlanks rest with
      | '.' :: rest =>
        (keyUpTo? bound rest).map fun (path, last, rest) => (part :: path, last, rest)
      | rest => some ([], part, rest)

/-- A key at the front: its leading parts, its last part, and what follows. -/
def key? (cs : List Char) : Option (List String × String × List Char) :=
  keyUpTo? (keyLimit - 1) cs

end Toml
end Mandate
