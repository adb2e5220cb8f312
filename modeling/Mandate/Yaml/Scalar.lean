import Mandate.Text.Hexadecimal
import Mandate.Yaml.Glyph

/-!
# The texts of YAML scalars

A scalar is plain, quoted or a block.  Inside the first two, white space at the end of a line and
at the start of the next one does not count: a single break folds to a space, and of several breaks
the first is left out.  A block keeps its lines, or folds those that are not indented further.

Main definitions:

* `Gap`: white space inside a scalar, and the text it folds to.
* `plain?`: a plain scalar at the front.
* `quoted?`: the rest of a quoted scalar.
* `block?`: the rest of a block scalar.
-/

namespace Mandate
namespace Yaml

open Text (charOfHex?)

/-! ## White space -/

/-- White space inside a scalar. -/
inductive Gap
  /-- White space inside a line. -/
  | blanks (cs : List Char)
  /-- Line breaks; the first one is absent where it has been escaped. -/
  | breaks (first : Option Char) (more : List Char)

/-- The text that line breaks fold to. -/
def folded (first : Option Char) (more : List Char) : List Char :=
  match first with
  | none => more
  | some '\n' => if more.isEmpty then [' '] else more
  | some c => c :: more

/-- The text that white space folds to. -/
def Gap.chars : Gap → List Char
  | .blanks cs => cs
  | .breaks first more => folded first more

/-- No white space. -/
def Gap.none : Gap :=
  .blanks []

/-- The gap with one more blank. -/
def Gap.addBlank : Gap → Char → Gap
  | .blanks cs, c => .blanks (cs ++ [c])
  | .breaks first more, _ => .breaks first more

/-- The gap with one more line break. -/
def Gap.addBreak : Gap → Char → Gap
  | .blanks _, c => .breaks (some c) []
  | .breaks first more, c => .breaks first (more ++ [c])

/-- The gap crosses the end of a line. -/
def Gap.crosses : Gap → Bool
  | .blanks _ => false
  | .breaks _ _ => true

/-- There is no white space. -/
def Gap.isEmpty : Gap → Bool
  | .blanks [] => true
  | _ => false

/-- Puts the text of a gap and a character in front of the characters that have been read behind
them. -/
def Gap.before {α : Type} (gap : Gap) (c : Char) (read : Option (List Char × α)) :
    Option (List Char × α) :=
  read.map fun (cs, rest) => (gap.chars ++ c :: cs, rest)

/-! ## Plain scalars -/

/-- A bracket or comma, which ends a plain scalar inside brackets. -/
def isFlowMark (c : Char) : Bool :=
  c ∈ [',', '[', ']', '\x7b', '\x7d']

/-- What stands behind a plain scalar. -/
structure Plain where
  /-- White space between the scalar and the rest crosses the end of a line. -/
  crosses : Bool
  rest : List Glyph

/-- The rest of a plain scalar behind a gap.  `flow` tells that brackets stand around it; outside of
brackets its lines start at column `margin` or further right. -/
def plainFrom? (flow : Bool) (margin : Nat) : Gap → List Glyph → Option (List Char × Plain)
  | gap, [] => some ([], ⟨gap.crosses, []⟩)
  | gap, g :: rest =>
    let stop := some ([], ⟨gap.crosses, g :: rest⟩)
    let outside := g.place.column < margin
    if isBlank g.char then
      if gap.crosses && outside && g.char == '\t' then none
      else plainFrom? flow margin (gap.addBlank g.char) rest
    else if isBreak g.char then plainFrom? flow margin (gap.addBreak g.char) rest
    else if gap.crosses && !flow && outside then stop
    else if atMark (g :: rest) then stop
    else if !gap.isEmpty && g.char == '#' then stop
    else if flow && g.char == ':' && (firstChar? rest).any (fun c => c == '?' || isFlowMark c) then
      none
    else if g.char == ':' && atEdge rest then stop
    else if flow && isFlowMark g.char then stop
    else gap.before g.char (plainFrom? flow margin .none rest)

/-- The plain scalar at the front. -/
def plain? (flow : Bool) (margin : Nat) (gs : List Glyph) : Option (List Char × Plain) :=
  plainFrom? flow margin .none gs

/-! ## Quoted scalars -/

/-- The character of a one-letter escape. -/
def escaped? (c : Char) : Option Char :=
  [('0', '\x00'), ('a', '\x07'), ('b', '\x08'), ('t', '\t'), ('\t', '\t'), ('n', '\n'),
    ('v', '\x0b'), ('f', '\x0c'), ('r', '\r'), ('e', '\x1b'), (' ', ' '), ('"', '"'), ('/', '/'),
    ('\\', '\\'), ('N', '\x85'), ('_', '\xa0'), ('L', '\u2028'), ('P', '\u2029')].lookup c

/-- The character of some hexadecimal digits. -/
def charOfDigits? (gs : List Glyph) : Option Char :=
  charOfHex? (gs.map Glyph.char)

/-- The rest of a scalar between single quotes, where a quote is written twice, behind a gap. -/
def singleFrom? : Gap → List Glyph → Option (List Char × List Glyph)
  | _, [] => none
  | gap, g :: rest =>
    if atMark (g :: rest) then none
    else if isBlank g.char then singleFrom? (gap.addBlank g.char) rest
    else if isBreak g.char then singleFrom? (gap.addBreak g.char) rest
    else if g.char = '\'' then
      match rest with
      | [] => some (gap.chars, [])
      | h :: more =>
        if h.char = '\'' then gap.before '\'' (singleFrom? .none more)
        else some (gap.chars, h :: more)
    else gap.before g.char (singleFrom? .none rest)

/-- The rest of a scalar between double quotes, where a backslash starts an escape, behind a gap. -/
def doubleFrom? : Gap → List Glyph → Option (List Char × List Glyph)
  | _, [] => none
  | gap, g :: rest =>
    if atMark (g :: rest) then none
    else if isBlank g.char then doubleFrom? (gap.addBlank g.char) rest
    else if isBreak g.char then doubleFrom? (gap.addBreak g.char) rest
    else if g.char = '"' then some (gap.chars, rest)
    else if g.char = '\\' then
      match rest with
      | [] => none
      | e :: rest =>
        if isBreak e.char then
          (doubleFrom? (.breaks none []) rest).map fun (cs, rest) => (gap.chars ++ cs, rest)
        else if e.char = 'x' then
          match rest with
          | a :: b :: rest =>
            match charOfDigits? [a, b] with
            | some c => gap.before c (doubleFrom? .none rest)
            | none => none
          | _ => none
        else if e.char = 'u' then
          match rest with
          | a :: b :: c :: d :: rest =>
            match charOfDigits? [a, b, c, d] with
            | some c => gap.before c (doubleFrom? .none rest)
            | none => none
          | _ => none
        else if e.char = 'U' then
          match rest with
          | a :: b :: c :: d :: e :: f :: g :: h :: rest =>
            match charOfDigits? [a, b, c, d, e, f, g, h] with
            | some c => gap.before c (doubleFrom? .none rest)
            | none => none
          | _ => none
        else
          match escaped? e.char with
          | some c => gap.before c (doubleFrom? .none rest)
          | none => none
    else gap.before g.char (doubleFrom? .none rest)

/-- A quoted scalar behind its opening quote. -/
def quoted? (quote : Char) (gs : List Glyph) : Option (List Char × List Glyph) :=
  if quote = '"' then doubleFrom? .none gs else singleFrom? .none gs

/-! ## Block scalars -/

/-- What becomes of the line breaks at the end of a block. -/
inductive Chomping
  /-- All are left out. -/
  | strip
  /-- The first one stays. -/
  | clip
  /-- All stay. -/
  | keep

/-- A plus or minus sign at the front, and what follows. -/
def chomping : List Glyph → Chomping × List Glyph
  | [] => (.clip, [])
  | g :: rest =>
    if g.char = '+' then (.keep, rest) else if g.char = '-' then (.strip, rest)
    else (.clip, g :: rest)

/-- A digit for the depth of a block at the front, and what follows.  The digit is not zero. -/
def depth? : List Glyph → Option (Option Nat × List Glyph)
  | [] => some (none, [])
  | g :: rest =>
    if g.char.isDigit then
      if g.char = '0' then none else some (some (g.char.toNat - '0'.toNat), rest)
    else some (none, g :: rest)

/-- The signs behind the mark of a block: a sign for chomping and a digit for the depth, in either
order. -/
def blockSigns? (gs : List Glyph) : Option (Chomping × Option Nat × List Glyph) :=
  match depth? gs with
  | none => none
  | some (some depth, rest) =>
    let (chomp, rest) := chomping rest
    some (chomp, some depth, rest)
  | some (none, rest) =>
    let (chomp, behind) := chomping rest
    match chomp with
    | .clip => some (.clip, none, rest)
    | chomp => (depth? behind).map fun (depth, rest) => (chomp, depth, rest)

/-- The depth that the empty lines in front and the first line of a block show, at least `least`.
No tab may stand in front of the first line. -/
def shownDepth? : (least : Nat) → List Glyph → Option Nat
  | least, [] => some least
  | least, g :: rest =>
    if isBreak g.char then shownDepth? least rest
    else if g.char = ' ' then shownDepth? (max least (g.place.column + 1)) rest
    else if g.char = '\t' then none
    else some least

/-- The lines of a block of some depth without their indentation, and what follows.  `start` tells
that a line begins. -/
def blockLines? (depth : Nat) : (start : Bool) → List Glyph → Option (List Char × List Glyph)
  | _, [] => some ([], [])
  | start, g :: rest =>
    let keep (start : Bool) :=
      (blockLines? depth start rest).map fun (cs, rest) => (g.char :: cs, rest)
    if isBreak g.char then keep true
    else if start && g.place.column < depth then
      if g.char = ' ' then blockLines? depth true rest
      else if g.char = '\t' then none
      else some ([], g :: rest)
    else keep false

/-- A line that starts with white space. -/
def isIndented (cs : List Char) : Bool :=
  cs.head?.any isBlank

/-- A run of line breaks. -/
def isBreaks (cs : List Char) : Bool :=
  cs.head?.any isBreak

/-- Joins runs of breaks and lines that take turns.  Breaks between two lines fold unless one of
the lines is indented. -/
def foldRuns : (before : List Char) → List (List Char) → List Char
  | _, [] => []
  | before, run :: runs =>
    let behind := runs.head?.getD []
    let joined :=
      if isBreaks run && !before.isEmpty && !isIndented before && !isIndented behind then
        folded run.head? run.tail
      else run
    joined ++ foldRuns run runs

/-- The text of a block of lines.  `literal` tells that breaks are kept inside of it. -/
def blockText (literal : Bool) (chomp : Chomping) (lines : List Char) : List Char :=
  let tail := (lines.reverse.takeWhile isBreak).reverse
  let body := (lines.reverse.dropWhile isBreak).reverse
  let kept :=
    match chomp with
    | .strip => []
    | .clip => if body.isEmpty then [] else tail.take 1
    | .keep => tail
  if literal then body ++ kept
  else foldRuns [] (body.splitBy fun a b => isBreak a == isBreak b) ++ kept

/-- A block scalar behind its mark.  The lines around it are indented by less than `margin`. -/
def block? (literal : Bool) (margin : Nat) (gs : List Glyph) :
    Option (List Char × List Glyph) := do
  let (chomp, given, gs) ← blockSigns? gs
  let gs ← endLine? gs
  let depth ←
    match given with
    | some given => some (margin - 1 + given)
    | none => shownDepth? (max 1 margin) gs
  let (lines, rest) ← blockLines? depth true gs
  pure (blockText literal chomp lines, rest)

end Yaml
end Mandate
