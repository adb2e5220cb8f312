import Mandate.Fact.Basic
import Std.Data.TreeSet

/-!
# The facts that a constraint reads

Main definitions:

* `Term.reads`, `Predicate.reads`, `Formula.reads`: the facts along a tree, with repetitions.
* `Constraint.referencedFacts`: the facts of a constraint, each once, in the order of keys.
-/

namespace Mandate

/-- The facts that the leaves of a term read. -/
def Term.reads : Term → List FactKey
  | .add l r | .sub l r => l.reads ++ r.reads
  | leaf => (FactKey.ofTerm? leaf).toList

/-- The facts that a predicate reads: its own, and those of the term that bounds it.  The period of
a rate limit is a constant and is not read. -/
def Predicate.reads (owner : PermId) (p : Predicate) : List FactKey :=
  (FactKey.ofPredicate? owner p).toList ++
    match p with
    | .maxDelegationDepth limit | .rateLimit limit _ => limit.reads
    | _ => []

/-- The facts that a formula reads. -/
def Formula.reads (owner : PermId) : Formula → List FactKey
  | .not f => f.reads owner
  | .and l r | .or l r => l.reads owner ++ r.reads owner
  | .compare _ l r => l.reads ++ r.reads
  | .base p => p.reads owner

/-- The keys of a list, each once, in the order of keys. -/
def FactKey.sorted (keys : List FactKey) : List FactKey :=
  (Std.TreeSet.ofList keys).toList

/-- The facts that a constraint reads, each once, in the order of keys. -/
def Constraint.referencedFacts (c : Constraint) : List FactKey :=
  FactKey.sorted (c.body.reads c.permission)

end Mandate
