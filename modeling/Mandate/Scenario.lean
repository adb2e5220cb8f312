import Mandate.Fact.Basic

/-!
# Sample constraints

Small constraints and facts for examples and tests.
-/

namespace Mandate
namespace Scenario

/-- A formula that asks for a stake. -/
def stakeAtLeast (account : AccountId) (amount : Quantity) : Formula :=
  .compare .gte (.stakeOf account) (.literal amount)

/-- A permission that is active while another one exists. -/
def permissionExists (permission target : PermId) : Constraint :=
  ⟨permission, .base (.permissionExists target)⟩

/-- The permission `p2` is active while `p1` exists. -/
def existence : Constraint :=
  permissionExists ⟨"p2"⟩ ⟨"p1"⟩

/-- Enough stake, and either enough weight or an enabled permission late in the chain. -/
def stakeAndWeight : Constraint :=
  ⟨⟨"p1"⟩, .and (stakeAtLeast ⟨"acct1"⟩ ⟨1000, by decide⟩)
    (.or (.compare .gte (.weightSet ⟨"g"⟩ ⟨"acct1"⟩) (.literal ⟨30, by decide⟩))
      (.and (.base (.permissionEnabled ⟨"42"⟩))
        (.compare .gt .blockNumber (.literal ⟨2000000, by decide⟩))))⟩

/-- Facts on which `stakeAndWeight` is false. -/
def initialFacts : List Fact :=
  [⟨.stakeOf ⟨"acct1"⟩, .uint ⟨500, by decide⟩⟩,
    ⟨.weightSet ⟨"g"⟩ ⟨"acct1"⟩, .uint ⟨10, by decide⟩⟩,
    ⟨.permissionEnabled ⟨"42"⟩, .bool false⟩]

/-- A predicate below `count` negations. -/
def negated : (count : Nat) → Formula
  | 0 => .base (.permissionExists ⟨"p0"⟩)
  | count + 1 => .not (negated count)

/-- A constraint with a chain of negations. -/
def negationChain (permission : PermId) (count : Nat) : Constraint :=
  ⟨permission, negated count⟩

/-- A document whose permission is no identifier. -/
def malformedIdentifierText : String :=
  "\x7b\"permId\":\"bad id\",\"body\":\x7b\"$\":\"Base\"," ++
    "\"body\":\x7b\"$\":\"PermissionExists\",\"pid\":\"p1\"\x7d\x7d\x7d"

end Scenario
end Mandate
