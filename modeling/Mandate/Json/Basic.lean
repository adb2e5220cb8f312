/-!
# JSON documents

A document is a tree of values.  Members of an object keep their order and may repeat a name.
Integers of 64 bits are kept exactly; no reader of this library looks at the value of any other
number, so those are all one leaf.

Main definitions:

* `Json`: the tree.
* `Json.nesting`: how many arrays and objects enclose the innermost value.
* `Json.readable`: no value in the tree is void.
-/

namespace Mandate

/-- A JSON value. -/
inductive Json
  | null
  | bool (b : Bool)
  /-- An integer that fits 64 bits, with or without a sign. -/
  | integer (i : Int)
  /-- Any other number: a fraction, an exponent, a larger integer, or minus zero. -/
  | real
  /-- A well-formed token that denotes nothing: a number beyond every float, or a text with half of
  a surrogate pair.  An object with such a name is void as a whole. -/
  | void
  | text (s : String)
  | array (items : List Json)
  | object (members : List (String × Json))

namespace Json

/-- The integers that a document keeps exactly: those that fit 64 bits, with or without a sign. -/
def fits (i : Int) : Bool :=
  -0x8000000000000000 ≤ i && i < 0x10000000000000000

mutual

/-- The greatest number of arrays and objects around a value of the document, itself included. -/
def nesting : Json → Nat
  | .array items => itemsNesting items + 1
  | .object members => membersNesting members + 1
  | _ => 0

/-- The greatest nesting among the items. -/
def itemsNesting : List Json → Nat
  | [] => 0
  | j :: rest => max j.nesting (itemsNesting rest)

/-- The greatest nesting among the values of the members. -/
def membersNesting : List (String × Json) → Nat
  | [] => 0
  | (_, j) :: rest => max j.nesting (membersNesting rest)

end

mutual

/-- Every value of the document denotes something. -/
def readable : Json → Bool
  | .void => false
  | .array items => itemsReadable items
  | .object members => membersReadable members
  | _ => true

/-- Every item is readable. -/
def itemsReadable : List Json → Bool
  | [] => true
  | j :: rest => j.readable && itemsReadable rest

/-- The value of every member is readable. -/
def membersReadable : List (String × Json) → Bool
  | [] => true
  | (_, j) :: rest => j.readable && membersReadable rest

end

/-- A natural number as a JSON value. -/
def ofNat (n : Nat) : Json :=
  .integer n

/-- A value, or `null` where there is none. -/
def ofOption : Option Json → Json
  | some j => j
  | none => .null

end Json

end Mandate
