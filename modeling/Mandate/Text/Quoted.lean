import Mandate.Text.Printable

/-!
# Quoted texts in messages

A message shows a foreign text between double quotes and a foreign character between single
quotes.  Backslashes, the quote that encloses the text, and the characters NUL, tab, line feed and
carriage return get a backslash; any other character that is not graphic, or that attaches to its
neighbour, is written as its code point in hexadecimal; everything else stands as it is.
-/

namespace Mandate
namespace Text

/-- The lower-case hexadecimal numeral of a number, without padding. -/
def hexNumeral (n : Nat) : List Char :=
  Nat.toDigits 16 n

/-- A character inside a text that is enclosed by `quote`. -/
def quotedChar (quote c : Char) : List Char :=
  if c = '\\' || c = quote then ['\\', c]
  else if c = '\n' then ['\\', 'n']
  else if c = '\r' then ['\\', 'r']
  else if c = '\t' then ['\\', 't']
  else if c.toNat = 0 then ['\\', '0']
  else if isGraphic c && !extendsGrapheme c then [c]
  else ['\\', 'u', '\x7b'] ++ hexNumeral c.toNat ++ ['\x7d']

/-- A text between double quotes. -/
def quote (s : String) : String :=
  String.ofList ('"' :: s.toList.flatMap (quotedChar '"') ++ ['"'])

/-- A character between single quotes. -/
def quoteChar (c : Char) : String :=
  String.ofList ('\'' :: quotedChar '\'' c ++ ['\''])

end Text
end Mandate
