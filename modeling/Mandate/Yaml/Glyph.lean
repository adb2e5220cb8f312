/-!
# The characters of YAML texts

A text is a list of glyphs: characters with their places.  However a line break is written, it is
one glyph; of the kinds of breaks only the line and paragraph separators stay apart from the line
feed.  Most rules on layout are rules on columns, and the place of a glyph is known wherever the
glyph is.

Main definitions:

* `Glyph`, `glyphs?`: characters with places, and those of a text.
* `isBlank`, `isBreak`, `atEdge`: white space.
* `isMark`: the three characters that stand around a document.
* `endLine?`: what follows the end of a line.
-/

namespace Mandate
namespace Yaml

/-- White space inside a line. -/
def isBlank (c : Char) : Bool :=
  c == ' ' || c == '\t'

/-- A line break. -/
def isBreak (c : Char) : Bool :=
  c == '\n' || c == '\r' || c == '\x85' || c == '\u2028' || c == '\u2029'

/-- A character that may stand in a text. -/
def isReadable (c : Char) : Bool :=
  c == '\t' || c == '\n' || c == '\r' || c == '\x85' ||
    (0x20 ≤ c.toNat && c.toNat ≤ 0x7E) || (0xA0 ≤ c.toNat && c.toNat ≤ 0xFFFD) ||
    0x10000 ≤ c.toNat

/-- A place in a text: the number of characters before it, of lines before it, and of characters
before it in its line. -/
structure Place where
  index : Nat
  line : Nat
  column : Nat

/-- A character with its place. -/
structure Glyph where
  char : Char
  place : Place

/-- The place behind a character that is no line break. -/
def Place.next (p : Place) : Place :=
  ⟨p.index + 1, p.line, p.column + 1⟩

/-- The place behind a line break of some characters. -/
def Place.nextLine (p : Place) (width : Nat) : Place :=
  ⟨p.index + width, p.line + 1, 0⟩

/-- A break as it is kept: a line feed, unless it is one of the separators. -/
def keptBreak (c : Char) : Char :=
  if c == '\u2028' || c == '\u2029' then c else '\n'

/-- The glyphs of a text that starts at a place. -/
def glyphsFrom : Place → List Char → List Glyph
  | _, [] => []
  | p, '\r' :: '\n' :: cs => ⟨'\n', p⟩ :: glyphsFrom (p.nextLine 2) cs
  | p, c :: cs =>
    if isBreak c then ⟨keptBreak c, p⟩ :: glyphsFrom (p.nextLine 1) cs
    else ⟨c, p⟩ :: glyphsFrom p.next cs

/-- The glyphs of a text.  A byte order mark in front takes up a column but is no glyph. -/
def glyphs? (text : String) : Option (List Glyph) :=
  let cs := text.toList
  if cs.all isReadable then
    match cs with
    | '\ufeff' :: cs => some (glyphsFrom ⟨1, 0, 1⟩ cs)
    | cs => some (glyphsFrom ⟨0, 0, 0⟩ cs)
  else none

/-- White space or the end of the text follows. -/
def atEdge : List Glyph → Bool
  | [] => true
  | g :: _ => isBlank g.char || isBreak g.char

/-- The first character. -/
def firstChar? (gs : List Glyph) : Option Char :=
  gs.head?.map Glyph.char

/-- Three times a character at the start of a line, with nothing joined to them. -/
def isMark (c : Char) : List Glyph → Bool
  | f :: g :: h :: rest =>
    f.place.column == 0 && f.char == c && g.char == c && h.char == c && atEdge rest
  | _ => false

/-- A mark in front of or behind a document. -/
def atMark (gs : List Glyph) : Bool :=
  isMark '-' gs || isMark '.' gs

/-- The text without the white space at its front. -/
def skipBlanks (gs : List Glyph) : List Glyph :=
  gs.dropWhile fun g => isBlank g.char

/-- What follows the end of the line, in front of which a comment may stand. -/
def endLine? (gs : List Glyph) : Option (List Glyph) :=
  let gs := skipBlanks gs
  let gs := if firstChar? gs = some '#' then gs.dropWhile fun g => !isBreak g.char else gs
  match gs with
  | [] => some []
  | g :: rest => if isBreak g.char then some rest else none

end Yaml
end Mandate
