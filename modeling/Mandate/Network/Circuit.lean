import Mandate.Evaluation
import Mandate.Network.Value

/-!
# Circuits

A constraint is compiled into a tree of operators.  Comparisons and connectives stay as they are
written; a predicate becomes the leaf of its fact, or the comparison of that fact with its limit.
What cannot be compiled is found before anything is built.

Main definitions:

* `Circuit`: a tree of operators.
* `Circuit.value`: what it computes from facts.
* `CompileError`, `Constraint.check`: why a constraint has no circuit.
* `Constraint.lower`: the circuit of a constraint that has one.
-/

namespace Mandate

/-- A tree of operators. -/
inductive Circuit
  | leaf (op : Operator)
  | unary (op : Operator) (arg : Circuit)
  | binary (op : Operator) (left right : Circuit)
  deriving DecidableEq

namespace Circuit

/-- The leaf that follows a fact. -/
def fact (key : FactKey) : Circuit :=
  leaf (.fact key)

/-- The number of operators. -/
def size : Circuit → Nat
  | leaf _ => 1
  | unary _ c => 1 + c.size
  | binary _ l r => 1 + l.size + r.size

/-- The height; a leaf has height zero. -/
def height : Circuit → Nat
  | leaf _ => 0
  | unary _ c => c.height + 1
  | binary _ l r => max l.height r.height + 1

/-- The facts that the leaves follow, from left to right. -/
def facts : Circuit → List FactKey
  | leaf op => op.fact?.toList
  | unary _ c => c.facts
  | binary _ l r => l.facts ++ r.facts

/-- What the circuit computes on given inputs of its leaves. -/
def value (inputs : Facts) : Circuit → Value
  | leaf (.fact key) => .ofFact key (inputs key)
  | leaf op => op.apply []
  | unary op c => op.apply [c.value inputs]
  | binary op l r => op.apply [l.value inputs, r.value inputs]

end Circuit

/-- Why a constraint cannot be compiled. -/
inductive CompileError
  | literalOutOfRange (value : Quantity)
  /-- The period of a rate limit of the permission is not a constant that is not negative. -/
  | periodNotConstant (owner : PermId)
  deriving DecidableEq

/-- The wording of the error. -/
def CompileError.message : CompileError → String
  | .literalOutOfRange q => "literal " ++ q.text ++ " does not fit the evaluation domain"
  | .periodNotConstant owner => "rate-limit period of " ++ owner.text ++ " is not a constant"

/-! ## What cannot be compiled -/

/-- Passes a term whose literals all fit the evaluation range. -/
def Term.check : Term → Except CompileError Unit
  | .literal q => if q.fits then .ok () else .error (.literalOutOfRange q)
  | .add l r | .sub l r => do
    l.check
    r.check
  | _ => .ok ()

/-- Passes a predicate that has a fact, if it needs one, and a limit that can be compiled. -/
def Predicate.check (owner : PermId) : Predicate → Except CompileError Unit
  | .maxDelegationDepth limit => limit.check
  | .rateLimit limit period =>
    match FactKey.ofPredicate? owner (.rateLimit limit period) with
    | some _ => limit.check
    | none => .error (.periodNotConstant owner)
  | _ => .ok ()

/-- Passes a formula whose terms and predicates can all be compiled. -/
def Formula.check (owner : PermId) : Formula → Except CompileError Unit
  | .not f => f.check owner
  | .and l r | .or l r => do
    l.check owner
    r.check owner
  | .compare _ l r => do
    l.check
    r.check
  | .base p => p.check owner

/-- Passes a constraint that can be compiled. -/
def Constraint.check (c : Constraint) : Except CompileError Unit :=
  c.body.check c.permission

/-! ## Compiling -/

/-- The circuit of a term.  A literal that does not fit becomes the greatest number of the
evaluation range; the check never lets one through. -/
def Term.circuit : Term → Circuit
  | .literal q => .leaf (.literal (q.value?.getD (rangeEnd - 1)))
  | .add l r => .binary .add l.circuit r.circuit
  | .sub l r => .binary .sub l.circuit r.circuit
  | leaf =>
    match FactKey.ofTerm? leaf with
    | some key => .fact key
    | none => .leaf (.literal 0)

/-- The circuit of a predicate, on behalf of the permission that owns it.  A predicate without a fact
becomes a constant; the check never lets one through. -/
def Predicate.circuit (owner : PermId) (p : Predicate) : Circuit :=
  match FactKey.ofPredicate? owner p with
  | none => .leaf (.literal 0)
  | some key =>
    match p with
    | .maxDelegationDepth limit | .rateLimit limit _ =>
      .binary (.compare .lte) (.fact key) limit.circuit
    | _ => .fact key

/-- The circuit of a formula, on behalf of the permission that owns it. -/
def Formula.circuit (owner : PermId) : Formula → Circuit
  | .not f => .unary .not (f.circuit owner)
  | .and l r => .binary .and (l.circuit owner) (r.circuit owner)
  | .or l r => .binary .or (l.circuit owner) (r.circuit owner)
  | .compare op l r => .binary (.compare op) l.circuit r.circuit
  | .base p => p.circuit owner

/-- The circuit of a constraint that passes the check. -/
def Constraint.lower (c : Constraint) : Except CompileError Circuit := do
  c.check
  pure (c.body.circuit c.permission)

end Mandate
