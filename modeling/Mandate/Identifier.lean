import Mandate.Text.Decimal
import Mandate.Text.Quoted

/-!
# Identifiers

Permissions, accounts and registered constraints are named by opaque texts.  Any text can stand in
a decoded constraint; whether it is a well-formed identifier is a separate question: one to
`limit` bytes, each a letter, digit, underscore, point or hyphen of ASCII.

Main definitions:

* `PermId`, `AccountId`: names of permissions and accounts.
* `IdentifierError`, `checkIdentifier`: what is wrong with a text as an identifier.
-/

namespace Mandate

/-- The name of a permission. -/
@[ext]
structure PermId where
  text : String
  deriving DecidableEq, Hashable, Inhabited

/-- The name of an account. -/
@[ext]
structure AccountId where
  text : String
  deriving DecidableEq, Hashable, Inhabited

/-- The fault of a text that is no identifier. -/
inductive IdentifierError
  | empty
  /-- The text has `length` bytes. -/
  | tooLong (length limit : Nat)
  /-- The character starts at the byte `offset`. -/
  | invalidChar (c : Char) (offset : Nat)
  deriving DecidableEq

/-- The wording of the fault. -/
def IdentifierError.message : IdentifierError → String
  | .empty => "identifier is empty"
  | .tooLong length limit =>
    "identifier is " ++ Decimal.natText length ++ " characters long, limit is " ++
      Decimal.natText limit
  | .invalidChar c offset =>
    "invalid character " ++ Text.quoteChar c ++ " at offset " ++ Decimal.natText offset

/-- The characters of an identifier. -/
def isIdentifierChar (c : Char) : Bool :=
  c.isAlphanum || c == '_' || c == '.' || c == '-'

/-- The first character that may not stand in an identifier, with the byte where it starts. -/
def firstInvalid? : Nat → List Char → Option (Char × Nat)
  | _, [] => none
  | offset, c :: rest =>
    if isIdentifierChar c then firstInvalid? (offset + c.utf8Size) rest else some (c, offset)

/-- The fault of a text as an identifier of at most `limit` bytes, if it has one. -/
def checkIdentifier (limit : Nat) (s : String) : Option IdentifierError :=
  if s.isEmpty then some .empty
  else if limit < s.utf8ByteSize then some (.tooLong s.utf8ByteSize limit)
  else (firstInvalid? 0 s.toList).map fun (c, offset) => .invalidChar c offset

instance : Ord PermId := ⟨fun a b => compare a.text b.text⟩

instance : Ord AccountId := ⟨fun a b => compare a.text b.text⟩

instance : Std.TransOrd PermId where
  eq_swap := fun {a b} => Std.OrientedOrd.eq_swap (a := a.text) (b := b.text)
  isLE_trans := fun {a b c} => Std.TransOrd.isLE_trans (a := a.text) (b := b.text) (c := c.text)

instance : Std.LawfulEqOrd PermId where
  compare_self := fun {a} => Std.ReflOrd.compare_self (a := a.text)
  eq_of_compare := fun {a b} h => by
    have h := Std.LawfulEqOrd.eq_of_compare (a := a.text) (b := b.text) h
    cases a; cases b; simpa using h

end Mandate
