import Mandate.Fact.Basic

/-!
# Direct evaluation

The truth of a constraint on a table of facts, computed along its tree.  A missing fact, a fact of
the wrong kind, and a number outside the evaluation range leave a term without a value; the
connectives follow Kleene's logic, in which an undecided part does not matter where the other part
decides.

Main definitions:

* `Facts`: a table of facts.
* `Term.evaluate`, `Predicate.evaluate`, `Formula.evaluate`, `Constraint.evaluate`.
-/

namespace Mandate

/-- A table of facts. -/
abbrev Facts := FactKey → Option FactValue

namespace Kleene

/-- Negation. -/
def not : Option Bool → Option Bool
  | some b => some (!b)
  | none => none

/-- Conjunction: false where either side is, true where both are. -/
def and : Option Bool → Option Bool → Option Bool
  | some false, _ => some false
  | _, some false => some false
  | some true, some true => some true
  | _, _ => none

/-- Disjunction: true where either side is, false where both are. -/
def or : Option Bool → Option Bool → Option Bool
  | some true, _ => some true
  | _, some true => some true
  | some false, some false => some false
  | _, _ => none

end Kleene

/-- The number that a key has in the table, if it takes part in evaluation. -/
def Facts.number (facts : Facts) (key : FactKey) : Option Int := do
  let value ← facts key
  let q ← value.uint?
  q.value?

/-- The truth value that a key has in the table. -/
def Facts.truth (facts : Facts) (key : FactKey) : Option Bool := do
  let value ← facts key
  value.bool?

/-- The value of a term. -/
def Term.evaluate (facts : Facts) : Term → Option Int
  | .literal q => q.value?
  | .add l r => do checked ((← l.evaluate facts) + (← r.evaluate facts))
  | .sub l r => do checked ((← l.evaluate facts) - (← r.evaluate facts))
  | leaf => do facts.number (← FactKey.ofTerm? leaf)

/-- The truth of a predicate on behalf of its owner. -/
def Predicate.evaluate (facts : Facts) (owner : PermId) (p : Predicate) : Option Bool := do
  let key ← FactKey.ofPredicate? owner p
  match p with
  | .maxDelegationDepth limit | .rateLimit limit _ =>
    let n ← facts.number key
    let bound ← limit.evaluate facts
    some (n ≤ bound)
  | _ => facts.truth key

/-- The truth of a formula on behalf of its owner. -/
def Formula.evaluate (facts : Facts) (owner : PermId) : Formula → Option Bool
  | .not f => Kleene.not (f.evaluate facts owner)
  | .and l r => Kleene.and (l.evaluate facts owner) (r.evaluate facts owner)
  | .or l r => Kleene.or (l.evaluate facts owner) (r.evaluate facts owner)
  | .compare op l r => do some (op.holds (← l.evaluate facts) (← r.evaluate facts))
  | .base p => p.evaluate facts owner

/-- The truth of a constraint; nothing where the facts do not decide it. -/
def Constraint.evaluate (facts : Facts) (c : Constraint) : Option Bool :=
  c.body.evaluate facts c.permission

end Mandate
