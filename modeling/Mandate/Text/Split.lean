/-!
# Splitting at a separator

A text can be cut at the first occurrence of a separator of one or more characters, or at the last
occurrence of a single character.  The separator belongs to neither part.

Main definitions:

* `splitFirst?`: the parts around the first occurrence.
* `splitLast?`: the parts around the last occurrence of a character.
-/

namespace Mandate
namespace Text

/-- The text behind `front`, if it starts with it. -/
def behind? : (front : List Char) → List Char → Option (List Char)
  | [], cs => some cs
  | f :: front, c :: cs => if f = c then behind? front cs else none
  | _ :: _, [] => none

/-- The parts before and after the first occurrence of the separator. -/
def splitFirst? (separator : List Char) : List Char → Option (List Char × List Char)
  | [] => none
  | c :: cs =>
    match behind? separator (c :: cs) with
    | some rest => some ([], rest)
    | none => (splitFirst? separator cs).map fun (before, rest) => (c :: before, rest)

/-- The parts before and after the last occurrence of the character. -/
def splitLast? (separator : Char) : List Char → Option (List Char × List Char)
  | [] => none
  | c :: cs =>
    match splitLast? separator cs with
    | some (before, rest) => some (c :: before, rest)
    | none => if c = separator then some ([], cs) else none

end Text
end Mandate
