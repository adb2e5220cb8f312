import Mandate.Identifier
import Mandate.Quantity

/-!
# Constraint expressions

A constraint ties a formula to a permission.  Formulas are built from comparisons of numeric terms
and from predicates about permissions and delegation.

Main definitions:

* `Term`, `Relation`, `Predicate`, `Formula`, `Constraint`: the trees.
* `nodeCount` and `depth` of each: their number of nodes and their height.
* `Term.isConstant`, `Term.constantValue?`: terms without facts, and their values.
-/

namespace Mandate

/-- A numeric expression. -/
inductive Term
  | literal (value : Quantity)
  | blockNumber
  | stakeOf (account : AccountId)
  | add (left right : Term)
  | sub (left right : Term)
  | weightSet (source target : AccountId)
  | weightPower (source target : AccountId)
  deriving DecidableEq

/-- A relation between two numbers. -/
inductive Relation
  | gt
  | lt
  | gte
  | lte
  | eq
  deriving DecidableEq, Hashable

/-- An atomic statement about permissions and delegation. -/
inductive Predicate
  | maxDelegationDepth (depth : Term)
  | permissionExists (perm : PermId)
  | permissionEnabled (perm : PermId)
  /-- At most so many operations within a period of blocks. -/
  | rateLimit (maxOperations period : Term)
  | inactiveUnlessRedelegated
  deriving DecidableEq

/-- A boolean expression. -/
inductive Formula
  | not (body : Formula)
  | and (left right : Formula)
  | or (left right : Formula)
  | compare (relation : Relation) (left right : Term)
  | base (body : Predicate)
  deriving DecidableEq

/-- A formula attached to a permission. -/
structure Constraint where
  permission : PermId
  body : Formula
  deriving DecidableEq

/-! ## Relations -/

namespace Relation

/-- The relation holds between two numbers. -/
def holds : Relation → Int → Int → Bool
  | .gt, a, b => b < a
  | .lt, a, b => a < b
  | .gte, a, b => b ≤ a
  | .lte, a, b => a ≤ b
  | .eq, a, b => a == b

end Relation

/-! ## Size -/

namespace Term

/-- The number of nodes. -/
def nodeCount : Term → Nat
  | .add l r | .sub l r => 1 + l.nodeCount + r.nodeCount
  | _ => 1

/-- The height; a leaf has height one. -/
def depth : Term → Nat
  | .add l r | .sub l r => 1 + max l.depth r.depth
  | _ => 1

/-- The term reads no fact. -/
def isConstant : Term → Bool
  | .literal _ => true
  | .add l r | .sub l r => l.isConstant && r.isConstant
  | _ => false

/-- The value of a term that reads no fact, computed within the evaluation range. -/
def constantValue? : Term → Option Int
  | .literal q => q.value?
  | .add l r => do checked ((← l.constantValue?) + (← r.constantValue?))
  | .sub l r => do checked ((← l.constantValue?) - (← r.constantValue?))
  | _ => none

end Term

namespace Predicate

/-- The number of nodes. -/
def nodeCount : Predicate → Nat
  | .maxDelegationDepth d => 1 + d.nodeCount
  | .rateLimit m p => 1 + m.nodeCount + p.nodeCount
  | _ => 1

/-- The height; a predicate without terms has height one. -/
def depth : Predicate → Nat
  | .maxDelegationDepth d => 1 + d.depth
  | .rateLimit m p => 1 + max m.depth p.depth
  | _ => 1

end Predicate

namespace Formula

/-- The number of nodes, those of terms and predicates included. -/
def nodeCount : Formula → Nat
  | .not f => 1 + f.nodeCount
  | .and l r | .or l r => 1 + l.nodeCount + r.nodeCount
  | .compare _ l r => 1 + l.nodeCount + r.nodeCount
  | .base p => 1 + p.nodeCount

/-- The height; a comparison of two leaves has height two. -/
def depth : Formula → Nat
  | .not f => 1 + f.depth
  | .and l r | .or l r => 1 + max l.depth r.depth
  | .compare _ l r => 1 + max l.depth r.depth
  | .base p => 1 + p.depth

end Formula

end Mandate
