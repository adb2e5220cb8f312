import Mandate.Yaml.Scalar

/-!
# YAML tokens

Tokens are taken off the front of a text one by one.  In block style the columns of the tokens show
the structure, and tokens for it are added: a token that starts further right than the block around
it opens a block, and a token further left closes blocks.  Only the colon behind a key tells that
something was a key, so the last token that may have started one is remembered; a key is on one
line and shorter than `keyReach` characters.

Anchors are numbered by their names, and tags are written out, so that tokens can be read without
what came before them.

Main definitions:

* `Token`, `Style`.
* `Scan`: what has been scanned, and what may come next.
* `Scan.step?`: the next token.
* `tokens?`: the tokens of a text.
-/

namespace Mandate
namespace Yaml

open Text (hexNumber? charOf?)

/-- How a scalar is written. -/
inductive Style
  | plain
  | quoted
  /-- A block that keeps its lines. -/
  | literal
  /-- A block that folds its lines. -/
  | folded
  deriving DecidableEq

/-- A token of a text. -/
inductive Token
  | directive
  | documentStart
  | documentEnd
  | blockSequence
  | blockMapping
  | blockEnd
  | openSequence
  | closeSequence
  | openMapping
  | closeMapping
  /-- The dash in front of an item. -/
  | dash
  | comma
  /-- What follows is a key. -/
  | key
  /-- What follows is the value of a key. -/
  | value
  | anchor (number : Nat)
  | alias (number : Nat)
  | tag (name : String)
  | scalar (style : Style) (text : String)
  deriving DecidableEq

/-! ## The state of a scan -/

/-- A token that may be the start of a key. -/
structure KeyStart where
  /-- The number of tokens before it. -/
  position : Nat
  place : Place
  /-- Nothing but a key may stand there. -/
  required : Bool

/-- A key ends at most this many characters behind its start. -/
def keyReach : Nat := 1024

/-- What has been scanned, and what may come next. -/
structure Scan where
  /-- The tokens so far, last first. -/
  tokens : List Token
  /-- The columns of the blocks that are open, innermost first. -/
  columns : List Nat
  /-- A key may start here. -/
  keyAllowed : Bool
  /-- The last token that may have started a key in the innermost brackets. -/
  keyStart : Option KeyStart
  /-- The same for the brackets around them, innermost first. -/
  outer : List (Option KeyStart)
  /-- The names of anchors with their last numbers. -/
  anchors : List (String × Nat)
  /-- The handles of tags that directives have declared. -/
  handles : List (String × String)
  /-- A directive has named the version. -/
  versioned : Bool

namespace Scan

/-- The state at the start of a text. -/
def start : Scan :=
  ⟨[], [], true, none, [], [], [], false⟩

/-- The scan is inside brackets. -/
def inFlow (s : Scan) : Bool :=
  !s.outer.isEmpty

/-- The first column inside the innermost block. -/
def margin (s : Scan) : Nat :=
  match s.columns with
  | [] => 0
  | column :: _ => column + 1

/-- Adds a token. -/
def push (s : Scan) (token : Token) : Scan :=
  { s with tokens := token :: s.tokens }

/-- Adds tokens in front of the one at a position. -/
def insertAt (s : Scan) (position : Nat) (tokens : List Token) : Scan :=
  let behind := s.tokens.length - position
  { s with tokens := s.tokens.take behind ++ (tokens.reverse ++ s.tokens.drop behind) }

/-- Tells whether a key may start at the next token. -/
def allowKey (s : Scan) (allowed : Bool) : Scan :=
  { s with keyAllowed := allowed }

/-- Forgets the last token that may have started a key, unless it had to. -/
def dropKey? (s : Scan) : Option Scan :=
  match s.keyStart with
  | some key => if key.required then none else some { s with keyStart := none }
  | none => some s

/-- Remembers that a key may start at a place. -/
def saveKey? (s : Scan) (p : Place) : Option Scan :=
  if s.keyAllowed then
    let required := !s.inFlow && s.columns.head? == some p.column
    s.dropKey?.map fun s => { s with keyStart := some ⟨s.tokens.length, p, required⟩ }
  else some s

/-- A key that may start at a token can no longer end at a place. -/
def isStale (p : Place) (key : KeyStart) : Bool :=
  key.place.line < p.line || key.place.index + keyReach < p.index

/-- Forgets the keys that can no longer end, unless one had to. -/
def dropStale? (s : Scan) (p : Place) : Option Scan :=
  let keys := s.keyStart :: s.outer
  if keys.any (·.any fun key => isStale p key && key.required) then none
  else
    let live (key : Option KeyStart) := key.filter fun key => !isStale p key
    some { s with keyStart := live s.keyStart, outer := s.outer.map live }

/-- Closes the blocks to the right of a column, or all of them. -/
def closeBlocks (s : Scan) (column : Option Nat) : Scan :=
  if s.inFlow then s
  else
    let isClosed (c : Nat) := column.all (· < c)
    let closed := s.columns.takeWhile isClosed
    { s with
      tokens := closed.map (fun _ => .blockEnd) ++ s.tokens
      columns := s.columns.dropWhile isClosed }

/-- A token at a column opens a block. -/
def opensBlock (s : Scan) (column : Nat) : Bool :=
  !s.inFlow && s.columns.head?.all (· < column)

/-- Opens a block at a column, unless there is one. -/
def openBlock (s : Scan) (column : Nat) (token : Token) : Scan :=
  if s.opensBlock column then { s.push token with columns := column :: s.columns } else s

/-! ## Tokens of one character -/

/-- An opening bracket. -/
def openBracket? (s : Scan) (p : Place) (token : Token) : Option Scan :=
  (s.saveKey? p).map fun s =>
    { s.push token with keyAllowed := true, keyStart := none, outer := s.keyStart :: s.outer }

/-- A closing bracket. -/
def closeBracket? (s : Scan) (token : Token) : Option Scan :=
  s.dropKey?.map fun s =>
    let s := s.push token
    match s.outer with
    | key :: outer => { s with keyAllowed := false, keyStart := key, outer := outer }
    | [] => s.allowKey false

/-- A comma between brackets. -/
def comma? (s : Scan) : Option Scan :=
  s.dropKey?.map fun s => (s.push .comma).allowKey true

/-- A dash in front of an item. -/
def dash? (s : Scan) (p : Place) : Option Scan :=
  if s.inFlow || s.keyAllowed then
    (s.openBlock p.column .blockSequence).dropKey?.map fun s => (s.push .dash).allowKey true
  else none

/-- A question mark in front of a key. -/
def key? (s : Scan) (p : Place) : Option Scan :=
  if s.inFlow || s.keyAllowed then
    (s.openBlock p.column .blockMapping).dropKey?.map fun s => (s.push .key).allowKey !s.inFlow
  else none

/-- A colon in front of a value. -/
def value? (s : Scan) (p : Place) : Option Scan :=
  match s.keyStart with
  | some key =>
    let column := key.place.column
    let opens := s.opensBlock column
    let s := s.insertAt key.position (if opens then [.blockMapping, .key] else [.key])
    some { s.push .value with
      columns := if opens then column :: s.columns else s.columns
      keyStart := none
      keyAllowed := false }
  | none =>
    if s.inFlow then some ((s.push .value).allowKey false)
    else if s.keyAllowed then
      some (((s.openBlock p.column .blockMapping).push .value).allowKey true)
    else none

/-! ## Scalars -/

/-- A scalar that may be a key. -/
def scalar? (s : Scan) (p : Place) (style : Style) (cs : List Char) : Option Scan :=
  (s.saveKey? p).map fun s => (s.push (.scalar style (String.ofList cs))).allowKey false

/-- A plain scalar.  Where it is followed by the end of its line, a key may start. -/
def plainScalar? (s : Scan) (p : Place) (gs : List Glyph) : Option (Scan × List Glyph) := do
  let (cs, behind) ← plain? s.inFlow s.margin gs
  let s ← s.scalar? p .plain cs
  pure (s.allowKey behind.crosses, behind.rest)

/-- A quoted scalar. -/
def quotedScalar? (s : Scan) (p : Place) (quote : Char) (gs : List Glyph) :
    Option (Scan × List Glyph) := do
  let (cs, rest) ← quoted? quote gs
  pure (← s.scalar? p .quoted cs, rest)

/-- A block scalar, which is no key. -/
def blockScalar? (s : Scan) (style : Style) (gs : List Glyph) : Option (Scan × List Glyph) := do
  let (cs, rest) ← block? (style == .literal) s.margin gs
  let s ← s.dropKey?
  pure ((s.push (.scalar style (String.ofList cs))).allowKey true, rest)

end Scan

/-! ## Anchors and tags -/

/-- A character of a name. -/
def isNameChar (c : Char) : Bool :=
  c.isAlphanum || c == '_' || c == '-'

/-- The name at the front, and what follows. -/
def takeName (gs : List Glyph) : List Char × List Glyph :=
  ((gs.takeWhile (isNameChar ·.char)).map Glyph.char, gs.dropWhile (isNameChar ·.char))

/-- The name of an anchor may end here. -/
def endsAnchor (gs : List Glyph) : Bool :=
  atEdge gs || (firstChar? gs).any (· ∈ ['?', ':', ',', ']', '\x7d', '%', '@', '\x60'])

/-- The name of an anchor at the front, and what follows. -/
def anchorName? (gs : List Glyph) : Option (String × List Glyph) :=
  let (name, rest) := takeName gs
  if !name.isEmpty && endsAnchor rest then some (String.ofList name, rest) else none

/-- A character of a tag.  More of them may stand between angle brackets. -/
def isTagChar (verbatim : Bool) (c : Char) : Bool :=
  isNameChar c || c ∈ [';', '/', '?', ':', '@', '&', '=', '+', '$', '.', '%', '!', '~', '*', '\'',
    '(', ')'] || (verbatim && c ∈ [',', '[', ']'])

/-- The number of bytes of a character with this first byte, and the part of the number of the
character that is in it. -/
def leadingByte? (b : Nat) : Option (Nat × Nat) :=
  if b < 0x80 then some (0, b)
  else if b < 0xC0 then none
  else if b < 0xE0 then some (1, b - 0xC0)
  else if b < 0xF0 then some (2, b - 0xE0)
  else if b < 0xF8 then some (3, b - 0xF0)
  else none

/-- The text of a tag, where bytes may be written as a percent sign and two hexadecimal digits.
`due` bytes are missing from a character that `n` begins.  A number that is none of a character
stands for the replacement character. -/
def unescapeTag? : (due n : Nat) → List Char → Option (List Char)
  | 0, _, [] => some []
  | _ + 1, _, [] => none
  | 0, _, '%' :: a :: b :: cs =>
    match (hexNumber? [a, b]).bind leadingByte? with
    | none => none
    | some (0, n) => (unescapeTag? 0 0 cs).map (Char.ofNat n :: ·)
    | some (due + 1, n) => unescapeTag? (due + 1) n cs
  | due + 1, n, '%' :: a :: b :: cs =>
    match hexNumber? [a, b] with
    | none => none
    | some byte =>
      if byte / 0x40 = 2 then
        let n := n * 0x40 + byte % 0x40
        match due with
        | 0 => (unescapeTag? 0 0 cs).map ((charOf? n).getD '\ufffd' :: ·)
        | due + 1 => unescapeTag? (due + 1) n cs
      else none
  | due, _, c :: cs => if due = 0 ∧ c ≠ '%' then (unescapeTag? 0 0 cs).map (c :: ·) else none

/-- The characters of a tag at the front, without escapes, and what follows. -/
def tagChars? (verbatim : Bool) (gs : List Glyph) : Option (List Char × List Glyph) :=
  let cs := (gs.takeWhile (isTagChar verbatim ·.char)).map Glyph.char
  (unescapeTag? 0 0 cs).map (·, gs.dropWhile (isTagChar verbatim ·.char))

/-- The handle of a tag behind its exclamation mark: a name and another exclamation mark, or
nothing. -/
def tagHandle? (gs : List Glyph) : Option (String × List Glyph) :=
  let (name, rest) := takeName gs
  match rest with
  | g :: rest => if g.char = '!' then some (String.ofList ('!' :: name ++ ['!']), rest) else none
  | [] => none

/-- What stands for a handle in tags. -/
def Scan.handle? (s : Scan) (handle : String) : Option String :=
  (s.handles ++ [("!", "!"), ("!!", "tag:yaml.org,2002:")]).lookup handle

/-- The tag behind its exclamation mark, written out, and what follows. -/
def tagName? (s : Scan) (gs : List Glyph) : Option (String × List Glyph) :=
  match gs with
  | [] => some ("!", [])
  | g :: rest =>
    if g.char = '<' then
      match tagChars? true rest with
      | some ([], _) => none
      | some (cs, h :: rest) => if h.char = '>' then some (String.ofList cs, rest) else none
      | _ => none
    else
      match tagHandle? gs with
      | some (handle, rest) =>
        match s.handle? handle, tagChars? false rest with
        | _, some ([], _) => none
        | some front, some (cs, rest) => some (front ++ String.ofList cs, rest)
        | _, _ => none
      | none =>
        match s.handle? "!", tagChars? false gs with
        | _, some ([], rest) => some ("!", rest)
        | some front, some (cs, rest) => some (front ++ String.ofList cs, rest)
        | _, _ => none

namespace Scan

/-- An anchor.  Its number is that of the names that anchors have so far. -/
def anchor? (s : Scan) (p : Place) (gs : List Glyph) : Option (Scan × List Glyph) := do
  let s ← s.saveKey? p
  let (name, rest) ← anchorName? gs
  let others := s.anchors.filter (·.1 != name)
  let number := s.anchors.length
  let s := { s.push (.anchor number) with anchors := (name, number) :: others }
  pure (s.allowKey false, rest)

/-- An alias of an anchor that has come before. -/
def alias? (s : Scan) (p : Place) (gs : List Glyph) : Option (Scan × List Glyph) := do
  let s ← s.saveKey? p
  let (name, rest) ← anchorName? gs
  let number ← s.anchors.lookup name
  pure ((s.push (.alias number)).allowKey false, rest)

/-- A tag, which white space must follow, or a comma between brackets. -/
def tag? (s : Scan) (p : Place) (gs : List Glyph) : Option (Scan × List Glyph) := do
  let s ← s.saveKey? p
  let (name, rest) ← tagName? s gs
  if atEdge rest || (s.inFlow && firstChar? rest = some ',') then
    pure ((s.push (.tag name)).allowKey false, rest)
  else none

/-! ## Directives -/

/-- A number of at most nine digits at the front, and what follows. -/
def versionNumber? (gs : List Glyph) : Option (Nat × List Glyph) :=
  let ds := (gs.takeWhile (·.char.isDigit)).map Glyph.char
  if ds.isEmpty || 9 < ds.length then none
  else some (Nat.ofDigitChars 10 ds 0, gs.dropWhile (·.char.isDigit))

/-- Declares the version, which is 1.1 or 1.2. -/
def version? (s : Scan) (gs : List Glyph) : Option (Scan × List Glyph) := do
  let (major, gs) ← versionNumber? gs
  match gs with
  | [] => none
  | g :: gs =>
    let (minor, gs) ← versionNumber? gs
    if g.char = '.' ∧ major = 1 ∧ (minor = 1 ∨ minor = 2) ∧ !s.versioned then
      some ({ s with versioned := true }, gs)
    else none

/-- Declares what stands for a handle in tags. -/
def handleDirective? (s : Scan) (gs : List Glyph) : Option (Scan × List Glyph) := do
  match gs with
  | [] => none
  | g :: gs =>
    let (handle, gs) := (tagHandle? gs).getD ("!", gs)
    if g.char = '!' ∧ (firstChar? gs).any isBlank then
      let (cs, gs) ← tagChars? true (skipBlanks gs)
      if !cs.isEmpty && atEdge gs && (s.handles.lookup handle).isNone then
        some ({ s with handles := (handle, String.ofList cs) :: s.handles }, gs)
      else none
    else none

/-- A directive behind its percent sign. -/
def directive? (s : Scan) (gs : List Glyph) : Option (Scan × List Glyph) := do
  let s ← (s.closeBlocks none).dropKey?
  let s := (s.push .directive).allowKey false
  let (name, gs) := takeName gs
  if !atEdge gs then none
  else
    let gs := skipBlanks gs
    let (s, gs) ←
      if name = ['Y', 'A', 'M', 'L'] then s.version? gs
      else if name = ['T', 'A', 'G'] then s.handleDirective? gs
      else none
    pure (s, ← endLine? gs)

/-- The marks around a document. -/
def mark? (s : Scan) (token : Token) : Option Scan :=
  (s.closeBlocks none).dropKey?.map fun s => (s.push token).allowKey false

/-! ## The scan -/

/-- The characters that no plain scalar starts with. -/
def isIndicator (c : Char) : Bool :=
  c ∈ ['-', '?', ':', ',', '[', ']', '\x7b', '\x7d', '#', '&', '*', '!', '|', '>', '\'', '"', '%',
    '@', '\x60']

/-- A plain scalar starts with a character and these behind it. -/
def startsPlain (s : Scan) (c : Char) (rest : List Glyph) : Bool :=
  if c = '-' then !(firstChar? rest).any isBlank
  else if c = '?' ∨ c = ':' then !s.inFlow && !atEdge rest
  else !isBlank c && !isIndicator c

/-- The token at a glyph, and what follows it. -/
def token? (s : Scan) (g : Glyph) (rest : List Glyph) : Option (Scan × List Glyph) :=
  let p := g.place
  let c := g.char
  if p.column = 0 ∧ c = '%' then s.directive? rest
  else if isMark '-' (g :: rest) then (s.mark? .documentStart).map (·, rest.drop 2)
  else if isMark '.' (g :: rest) then (s.mark? .documentEnd).map (·, rest.drop 2)
  else if c = '[' then (s.openBracket? p .openSequence).map (·, rest)
  else if c = '\x7b' then (s.openBracket? p .openMapping).map (·, rest)
  else if c = ']' then (s.closeBracket? .closeSequence).map (·, rest)
  else if c = '\x7d' then (s.closeBracket? .closeMapping).map (·, rest)
  else if c = ',' then s.comma?.map (·, rest)
  else if c = '-' ∧ atEdge rest then (s.dash? p).map (·, rest)
  else if c = '?' ∧ (s.inFlow ∨ atEdge rest) then (s.key? p).map (·, rest)
  else if c = ':' ∧ (s.inFlow ∨ atEdge rest) then (s.value? p).map (·, rest)
  else if c = '*' then s.alias? p rest
  else if c = '&' then s.anchor? p rest
  else if c = '!' then s.tag? p rest
  else if c = '|' ∧ !s.inFlow then s.blockScalar? .literal rest
  else if c = '>' ∧ !s.inFlow then s.blockScalar? .folded rest
  else if c = '\'' ∨ c = '"' then s.quotedScalar? p c rest
  else if s.startsPlain c rest then s.plainScalar? p (g :: rest)
  else none

/-- Skips white space and comments.  Tabs count as white space only where no key may start or
brackets stand around; outside of brackets a key may start on a new line. -/
def skipGap (flow : Bool) : (keyAllowed comment : Bool) → List Glyph → Bool × List Glyph
  | keyAllowed, _, [] => (keyAllowed, [])
  | keyAllowed, comment, g :: rest =>
    if isBreak g.char then skipGap flow (keyAllowed || !flow) false rest
    else if comment then skipGap flow keyAllowed true rest
    else if g.char = ' ' ∨ (g.char = '\t' ∧ (flow ∨ !keyAllowed)) then
      skipGap flow keyAllowed false rest
    else if g.char = '#' then skipGap flow keyAllowed true rest
    else (keyAllowed, g :: rest)

/-- The next token, and what follows it; at the end of a text nothing changes. -/
def step? (s : Scan) (gs : List Glyph) : Option (Scan × List Glyph) :=
  let (keyAllowed, gs) := skipGap s.inFlow s.keyAllowed false gs
  let s := s.allowKey keyAllowed
  match gs with
  | [] => some (s, [])
  | g :: rest => do
    let s ← s.dropStale? g.place
    (s.closeBlocks (some g.place.column)).token? g rest

/-- Scans a text to its end, in at most `bound` steps.  No key may be missing there. -/
def runUpTo? : (bound : Nat) → Scan → List Glyph → Option Scan
  | 0, _, _ => none
  | bound + 1, s, gs =>
    match s.step? gs with
    | none => none
    | some (s, []) => (s.closeBlocks none).dropKey?
    | some (s, gs) => runUpTo? bound s gs

end Scan

/-- The tokens of a text.  A step takes at least one of its characters. -/
def tokens? (text : String) : Option (List Token) := do
  let gs ← glyphs? text
  let s ← Scan.start.runUpTo? (gs.length + 1) gs
  pure s.tokens.reverse

end Yaml
end Mandate
