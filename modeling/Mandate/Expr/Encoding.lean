import Mandate.Expr.Basic
import Mandate.Json.Printer

/-!
# The JSON form of expressions

Every node is an object whose first member `$` names its variant; the other members are its fields
in order.  Literals are written as decimal texts, so that all 128 bits survive.

Main definitions:

* `Term.toJson`, `Predicate.toJson`, `Formula.toJson`, `Constraint.toJson`: the documents.
* `Constraint.canonicalText`: the text of a constraint, from which its identity is derived.
-/

namespace Mandate

/-- A node: its tag, then its fields. -/
def taggedJson (tag : String) (fields : List (String × Json)) : Json :=
  .object (("$", .text tag) :: fields)

/-- The document of a term. -/
def Term.toJson : Term → Json
  | .literal q => taggedJson "UIntLiteral" [("value", .text q.text)]
  | .blockNumber => taggedJson "BlockNumber" []
  | .stakeOf a => taggedJson "StakeOf" [("account", .text a.text)]
  | .add l r => taggedJson "Add" [("left", l.toJson), ("right", r.toJson)]
  | .sub l r => taggedJson "Sub" [("left", l.toJson), ("right", r.toJson)]
  | .weightSet s t => taggedJson "WeightSet" [("from", .text s.text), ("to", .text t.text)]
  | .weightPower s t => taggedJson "WeightPowerFrom" [("from", .text s.text), ("to", .text t.text)]

/-- The word for a relation. -/
def Relation.word : Relation → String
  | .gt => "Gt"
  | .lt => "Lt"
  | .gte => "Gte"
  | .lte => "Lte"
  | .eq => "Eq"

/-- The name of the variant of a predicate. -/
def Predicate.tag : Predicate → String
  | .maxDelegationDepth _ => "MaxDelegationDepth"
  | .permissionExists _ => "PermissionExists"
  | .permissionEnabled _ => "PermissionEnabled"
  | .rateLimit _ _ => "RateLimit"
  | .inactiveUnlessRedelegated => "InactiveUnlessRedelegated"

/-- The document of a predicate. -/
def Predicate.toJson (p : Predicate) : Json :=
  taggedJson p.tag <|
    match p with
    | .maxDelegationDepth d => [("depth", d.toJson)]
    | .permissionExists p => [("pid", .text p.text)]
    | .permissionEnabled p => [("pid", .text p.text)]
    | .rateLimit m p => [("maxOperations", m.toJson), ("period", p.toJson)]
    | .inactiveUnlessRedelegated => []

/-- The document of a formula. -/
def Formula.toJson : Formula → Json
  | .not f => taggedJson "Not" [("body", f.toJson)]
  | .and l r => taggedJson "And" [("left", l.toJson), ("right", r.toJson)]
  | .or l r => taggedJson "Or" [("left", l.toJson), ("right", r.toJson)]
  | .compare op l r =>
    taggedJson "CompExpr" [("op", .text op.word), ("left", l.toJson), ("right", r.toJson)]
  | .base p => taggedJson "Base" [("body", p.toJson)]

/-- The document of a constraint. -/
def Constraint.toJson (c : Constraint) : Json :=
  .object [("permId", .text c.permission.text), ("body", c.body.toJson)]

/-- The one text that is written for a constraint. -/
def Constraint.canonicalText (c : Constraint) : String :=
  c.toJson.print

end Mandate
