import Mandate.Expr.Encoding
import Mandate.Json.Decode

/-!
# Decoding expressions

The inverse of the encoding, open to every accepted spelling of a document.  The recursion follows
the nesting of the document, which bounds the height of the tree.

Main definitions:

* `Term.ofJson`, `Predicate.ofJson`, `Formula.ofJson`, `Constraint.ofJson`: values of documents.
* `Constraint.ofText`: the constraint of a text.
-/

namespace Mandate

open Decode

/-- The words for relations. -/
def Relation.words : List (String × Relation) :=
  [("Gt", .gt), ("Lt", .lt), ("Gte", .gte), ("Lte", .lte), ("Eq", .eq)]

/-- A relation that stands alone. -/
def Relation.ofJson : Json → Decoded Relation :=
  decodeWord Relation.words

/-- A relation inside a comparison, where an empty object is as hollow as `null`. -/
def Relation.ofInnerJson : Json → Decoded Relation :=
  decodeInnerWord Relation.words

/-- The name of a permission. -/
def PermId.ofJson (j : Json) : Decoded PermId :=
  (decodeText j).map PermId.mk

/-- The name of an account. -/
def AccountId.ofJson (j : Json) : Decoded AccountId :=
  (decodeText j).map AccountId.mk

namespace Term

/-- The tags of terms. -/
def tags : List String :=
  ["UIntLiteral", "BlockNumber", "StakeOf", "Add", "Sub", "WeightSet", "WeightPowerFrom"]

/-- A term of a document with fewer than `height` arrays and objects inside each other;
`inner` if the document stands inside another tagged value. -/
def ofJsonWithin : (inner : Bool) → (height : Nat) → Json → Decoded Term
  | _, 0, _ => .error .malformed
  | inner, height + 1, j => do
    let (tag, content) ← splitTag inner tags j
    let operand := ofJsonWithin true height
    let operands := Record.two false (.required "left" operand) (.required "right" operand)
    let account := AccountId.ofJson
    let accounts := Record.two false (.required "from" account) (.required "to" account)
    match tag with
    | "UIntLiteral" => content.as ((Record.one (.required "value" decodeQuantity)).map literal)
    | "BlockNumber" => content.as (Record.zero blockNumber)
    | "StakeOf" => content.as ((Record.one (.required "account" account)).map stakeOf)
    | "Add" => content.as (operands.map fun (l, r) => add l r)
    | "Sub" => content.as (operands.map fun (l, r) => sub l r)
    | "WeightSet" => content.as (accounts.map fun (s, t) => weightSet s t)
    | _ => content.as (accounts.map fun (s, t) => weightPower s t)

/-- The term of a document. -/
def ofJson : Json → Decoded Term :=
  decodeBounded 0 fun j => ofJsonWithin false (j.nesting + 1) j

end Term

namespace Predicate

/-- The tags of predicates. -/
def tags : List String :=
  ["MaxDelegationDepth", "PermissionExists", "PermissionEnabled", "RateLimit",
    "InactiveUnlessRedelegated"]

/-- A predicate of a document with fewer than `height` arrays and objects inside each other;
`inner` if the document stands inside another tagged value. -/
def ofJsonWithin (inner : Bool) (height : Nat) (j : Json) : Decoded Predicate := do
  let (tag, content) ← splitTag inner tags j
  let term := Term.ofJsonWithin true height
  let permission := Record.one (.required "pid" PermId.ofJson)
  match tag with
  | "MaxDelegationDepth" =>
    content.as ((Record.one (.required "depth" term)).map maxDelegationDepth)
  | "PermissionExists" => content.as (permission.map permissionExists)
  | "PermissionEnabled" => content.as (permission.map permissionEnabled)
  | "RateLimit" =>
    content.as ((Record.two false (.required "maxOperations" term) (.required "period" term)).map
      fun (m, p) => rateLimit m p)
  | _ => content.as (Record.zero inactiveUnlessRedelegated)

/-- The predicate of a document. -/
def ofJson : Json → Decoded Predicate :=
  decodeBounded 0 fun j => ofJsonWithin false (j.nesting + 1) j

end Predicate

namespace Formula

/-- The tags of formulas. -/
def tags : List String :=
  ["Not", "And", "Or", "CompExpr", "Base"]

/-- A formula of a document with fewer than `height` arrays and objects inside each other;
`inner` if the document stands inside another tagged value. -/
def ofJsonWithin : (inner : Bool) → (height : Nat) → Json → Decoded Formula
  | _, 0, _ => .error .malformed
  | inner, height + 1, j => do
    let (tag, content) ← splitTag inner tags j
    let operand := ofJsonWithin true height
    let operands := Record.two false (.required "left" operand) (.required "right" operand)
    let term := Term.ofJsonWithin true height
    match tag with
    | "Not" => content.as ((Record.one (.required "body" operand)).map not)
    | "And" => content.as (operands.map fun (l, r) => and l r)
    | "Or" => content.as (operands.map fun (l, r) => or l r)
    | "CompExpr" =>
      content.as ((Record.three false (.required "op" Relation.ofInnerJson) (.required "left" term)
        (.required "right" term)).map fun (op, l, r) => compare op l r)
    | _ =>
      let predicate := Predicate.ofJsonWithin true height
      content.as ((Record.one (.required "body" predicate)).map base)

/-- The formula of a document that lies in `outer` arrays and objects. -/
def ofJsonAt (outer : Nat) : Json → Decoded Formula :=
  decodeBounded outer fun j => ofJsonWithin false (j.nesting + 1) j

/-- The formula of a document. -/
def ofJson : Json → Decoded Formula :=
  ofJsonAt 0

end Formula

namespace Constraint

/-- The fields of a constraint. -/
def record : Record Json Constraint :=
  (Record.two false (.required "permId" PermId.ofJson) (.required "body" (Formula.ofJsonAt 1))).map
    fun (p, f) => ⟨p, f⟩

/-- The constraint of a document. -/
def ofJson (j : Json) : Decoded Constraint :=
  record.decode j

/-- The constraint of a text. -/
def ofText (text : String) : Decoded Constraint :=
  Decode.ofText ofJson text

end Constraint

end Mandate
