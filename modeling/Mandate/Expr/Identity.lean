import Mandate.Expr.Encoding
import Mandate.Hash.Sha256

/-!
# Constraint identities

A constraint is registered under an identity that is derived from its content: the first characters
of its permission, and the first bytes of the hash of its canonical text.  The same constraint
always has the same identity.

Main definitions:

* `ConstraintId`, `ConstraintId.derive`.
-/

namespace Mandate

/-- The identity of a registered constraint. -/
@[ext]
structure ConstraintId where
  text : String
  deriving DecidableEq, Hashable, Inhabited

namespace ConstraintId

/-- The characters of the permission that the identity shows. -/
def permissionLength : Nat := 32

/-- The bytes of the hash that the identity shows. -/
def hashLength : Nat := 8

/-- Two hexadecimal digits, lower case, for every byte. -/
def hexText (bytes : List UInt8) : List Char :=
  bytes.flatMap fun b => [Nat.digitChar (b.toNat / 16), Nat.digitChar (b.toNat % 16)]

/-- The hash of a constraint, as far as the identity shows it. -/
def fingerprint (c : Constraint) : List UInt8 :=
  (Sha256.digest c.canonicalText.toUTF8.data.toList).take hashLength

/-- The identity of a constraint. -/
def derive (c : Constraint) : ConstraintId :=
  ⟨"constraint_" ++ String.ofList (c.permission.text.toList.take permissionLength) ++ "_" ++
    String.ofList (hexText (fingerprint c))⟩

instance : Ord ConstraintId := ⟨fun a b => compare a.text b.text⟩

instance : Std.TransOrd ConstraintId where
  eq_swap := fun {a b} => Std.OrientedOrd.eq_swap (a := a.text) (b := b.text)
  isLE_trans := fun {a b c} => Std.TransOrd.isLE_trans (a := a.text) (b := b.text) (c := c.text)

instance : Std.LawfulEqOrd ConstraintId where
  compare_self := fun {a} => Std.ReflOrd.compare_self (a := a.text)
  eq_of_compare := fun {a b} h => by
    have h := Std.LawfulEqOrd.eq_of_compare (a := a.text) (b := b.text) h
    cases a; cases b; simpa using h

end ConstraintId

end Mandate
