import Std.Data.TreeMap
import Mandate.Config.Basic
import Mandate.Expr.Identity

/-!
# The registry

Registered constraints by identity, and the identity that stands for each permission.

Main definitions:

* `Registry`, `Registry.insert`, `Registry.erase`.
* `Registry.admission`: how a constraint relates to those that are registered.
-/

namespace Mandate

/-- How a constraint relates to those that are registered. -/
inductive Admission
  /-- No constraint is registered for the permission. -/
  | new
  /-- The constraint itself is registered. -/
  | existing
  /-- The constraint takes the place of another one of its permission. -/
  | replaces (old : ConstraintId)
  deriving DecidableEq

/-- The registered constraints. -/
structure Registry where
  constraints : Std.TreeMap ConstraintId Constraint := ∅
  /-- The constraint of each permission. -/
  owners : Std.TreeMap PermId ConstraintId := ∅

namespace Registry

/-- Decides whether an identity may be registered for a permission; otherwise tells which one is in
the way. -/
def admission (r : Registry) (id : ConstraintId) (permission : PermId)
    (policy : DuplicatePolicy) : Except ConstraintId Admission :=
  match r.owners[permission]? with
  | none => .ok .new
  | some old =>
    if old = id then .ok .existing
    else
      match policy with
      | .reject => .error old
      | .replace => .ok (.replaces old)

/-- Registers a constraint under an identity. -/
def insert (r : Registry) (id : ConstraintId) (c : Constraint) : Registry :=
  ⟨r.constraints.insert id c, r.owners.insert c.permission id⟩

/-- The constraint under an identity. -/
def get? (r : Registry) (id : ConstraintId) : Option Constraint :=
  r.constraints[id]?

/-- The identity that stands for a permission. -/
def owner? (r : Registry) (permission : PermId) : Option ConstraintId :=
  r.owners[permission]?

/-- The registry without an identity; its permission is free if the identity stood for it. -/
def erase (r : Registry) (id : ConstraintId) : Registry :=
  match r.get? id with
  | none => r
  | some c =>
    ⟨r.constraints.erase id,
      if r.owner? c.permission = some id then r.owners.erase c.permission else r.owners⟩

/-- The registered constraints in the order of identities. -/
def toList (r : Registry) : List (ConstraintId × Constraint) :=
  r.constraints.toList

/-- The number of registered constraints. -/
def size (r : Registry) : Nat :=
  r.constraints.size

end Registry
end Mandate
