import Mandate.Expr.Basic

/-!
# Facts

A fact is a point-in-time value of one quantity of the outside world.  Keys name the quantities,
and every key expects a number or a truth value.

Main definitions:

* `FactKey`, `FactKind`, `FactValue`, `Fact`, `FactUpdate`.
* `FactKey.ofTerm?`: the fact that a numeric leaf reads.
* `FactKey.ofPredicate?`: the fact that a predicate reads on behalf of its owner.
* the order of keys: by kind of quantity, then by names and period.
-/

namespace Mandate

/-- The name of a quantity of the outside world. -/
inductive FactKey
  | blockNumber
  | stakeOf (account : AccountId)
  | weightSet (source target : AccountId)
  | weightPower (source target : AccountId)
  | permissionExists (perm : PermId)
  | permissionEnabled (perm : PermId)
  /-- The current delegation depth of a permission. -/
  | delegationDepth (perm : PermId)
  /-- The operations on a permission within the last `period` blocks. -/
  | operationCount (perm : PermId) (period : Quantity)
  /-- Whether a permission has been delegated again. -/
  | redelegated (perm : PermId)
  deriving DecidableEq, Hashable

/-- The kind of value that a key expects. -/
inductive FactKind
  | uint
  | bool
  deriving DecidableEq

/-- The value of a fact. -/
inductive FactValue
  | uint (q : Quantity)
  | bool (b : Bool)
  deriving DecidableEq

/-- A key with its value. -/
structure Fact where
  key : FactKey
  value : FactValue
  deriving DecidableEq

/-- News about a key: its value, or that it is unresolved. -/
structure FactUpdate where
  key : FactKey
  value : Option FactValue
  deriving DecidableEq

namespace FactValue

/-- The kind of a value. -/
def kind : FactValue → FactKind
  | .uint _ => .uint
  | .bool _ => .bool

/-- The number, if the value is one. -/
def uint? : FactValue → Option Quantity
  | .uint q => some q
  | .bool _ => none

/-- The truth value, if the value is one. -/
def bool? : FactValue → Option Bool
  | .bool b => some b
  | .uint _ => none

end FactValue

/-- The news that a fact brings. -/
def Fact.toUpdate (f : Fact) : FactUpdate :=
  ⟨f.key, some f.value⟩

namespace FactKey

/-- The kind of value that the key expects. -/
def kind : FactKey → FactKind
  | .permissionExists _ | .permissionEnabled _ | .redelegated _ => .bool
  | _ => .uint

/-- The fact that a term reads, if it is a leaf that reads one. -/
def ofTerm? : Term → Option FactKey
  | .blockNumber => some .blockNumber
  | .stakeOf a => some (.stakeOf a)
  | .weightSet s t => some (.weightSet s t)
  | .weightPower s t => some (.weightPower s t)
  | _ => none

/-- The period of a rate limit: a constant that is not negative. -/
def period? (period : Term) : Option Quantity := do
  let n ← period.constantValue?
  if 0 ≤ n then Quantity.ofNat? n.toNat else none

/-- The fact that a predicate reads itself, on behalf of the permission that owns it.  A rate limit
without a constant period reads none. -/
def ofPredicate? (owner : PermId) : Predicate → Option FactKey
  | .maxDelegationDepth _ => some (.delegationDepth owner)
  | .permissionExists p => some (.permissionExists p)
  | .permissionEnabled p => some (.permissionEnabled p)
  | .rateLimit _ p => (period? p).map (.operationCount owner)
  | .inactiveUnlessRedelegated => some (.redelegated owner)

/-! ## Order -/

/-- The place of the kind of quantity in the order. -/
def rank : FactKey → Nat
  | .blockNumber => 0
  | .stakeOf _ => 1
  | .weightSet _ _ => 2
  | .weightPower _ _ => 3
  | .permissionExists _ => 4
  | .permissionEnabled _ => 5
  | .delegationDepth _ => 6
  | .operationCount _ _ => 7
  | .redelegated _ => 8

/-- The first name in the key. -/
def firstName : FactKey → String
  | .blockNumber => ""
  | .stakeOf a | .weightSet a _ | .weightPower a _ => a.text
  | .permissionExists p | .permissionEnabled p | .delegationDepth p | .operationCount p _
  | .redelegated p => p.text

/-- The second name in the key. -/
def secondName : FactKey → String
  | .weightSet _ t | .weightPower _ t => t.text
  | _ => ""

/-- The number in the key. -/
def number : FactKey → Nat
  | .operationCount _ period => period.toNat
  | _ => 0

instance : Ord FactKey :=
  ⟨compareLex (compareOn rank) (compareLex (compareOn firstName)
    (compareLex (compareOn secondName) (compareOn number)))⟩

instance : Std.TransOrd FactKey :=
  inferInstanceAs (Std.TransCmp (compareLex (compareOn rank) (compareLex (compareOn firstName)
    (compareLex (compareOn secondName) (compareOn number)))))

/-- A key is determined by its kind of quantity, its names and its number. -/
theorem eq_of_parts {a b : FactKey} (hr : a.rank = b.rank) (hf : a.firstName = b.firstName)
    (hs : a.secondName = b.secondName) (hn : a.number = b.number) : a = b := by
  cases a <;> cases b <;> simp [rank] at hr <;>
    simp_all [firstName, secondName, number, AccountId.ext_iff, PermId.ext_iff, Quantity.ext_iff]

instance : Std.LawfulEqOrd FactKey where
  compare_self := Std.ReflCmp.compare_self
  eq_of_compare := fun {a b} h => by
    obtain ⟨hr, h⟩ := compareLex_eq_eq.1 h
    obtain ⟨hf, h⟩ := compareLex_eq_eq.1 h
    obtain ⟨hs, hn⟩ := compareLex_eq_eq.1 h
    exact eq_of_parts
      (Std.LawfulEqOrd.eq_of_compare (a := a.rank) (b := b.rank) hr)
      (Std.LawfulEqOrd.eq_of_compare (a := a.firstName) (b := b.firstName) hf)
      (Std.LawfulEqOrd.eq_of_compare (a := a.secondName) (b := b.secondName) hs)
      (Std.LawfulEqOrd.eq_of_compare (a := a.number) (b := b.number) hn)

end FactKey

end Mandate
