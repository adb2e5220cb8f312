import Mandate.Expr.Identity
import Mandate.Json.Decode
import Mandate.Network.Value

/-!
# Activation states

A registered constraint is active, inactive, or neither as long as its formula cannot be computed.
Every change of state is recorded.

Main definitions:

* `Occasion`: when a batch of news is applied, and in which order it visits what is registered.
* `ActivationState`, `ActivationState.ofValue`.
* `ActivationRecord`, `ActivationStatus`.
-/

namespace Mandate

/-- A moment, in milliseconds. -/
abbrev Moment := Nat

/-- What a batch of news meets: the time, and an order of all that is registered.  Nothing is known
of the order, which differs from one batch to the next; constraints of one rank are visited in the
order of identities. -/
structure Occasion where
  moment : Moment
  rank : ConstraintId → Nat

namespace Occasion

/-- Everything is visited in the order of identities. -/
def ofMoment (moment : Moment) : Occasion :=
  ⟨moment, fun _ => 0⟩

instance : Coe Moment Occasion :=
  ⟨ofMoment⟩

instance (moment : Nat) : OfNat Occasion moment :=
  ⟨ofMoment moment⟩

end Occasion

/-- The state of a registered constraint. -/
inductive ActivationState
  /-- The constraint has not been evaluated since it was registered. -/
  | unknown
  | active
  | inactive
  /-- The formula cannot be computed from what is known. -/
  | indeterminate
  deriving DecidableEq

namespace ActivationState

/-- The state that the value of the root stands for. -/
def ofValue : Value → ActivationState
  | .bool true => active
  | .bool false => inactive
  | _ => indeterminate

/-- The constraint holds. -/
def isActive (s : ActivationState) : Bool :=
  s = active

/-- The words for states. -/
def words : List (String × ActivationState) :=
  [("unknown", unknown), ("active", active), ("inactive", inactive),
    ("indeterminate", indeterminate)]

/-- The word for a state. -/
def word : ActivationState → String
  | unknown => "unknown"
  | active => "active"
  | inactive => "inactive"
  | indeterminate => "indeterminate"

/-- The document of a state. -/
def toJson (s : ActivationState) : Json :=
  .text s.word

/-- The state of a document. -/
def ofJson : Json → Decoded ActivationState :=
  Decode.decodeWord words

end ActivationState

/-- A change of state. -/
structure ActivationRecord where
  id : ConstraintId
  source : ActivationState
  target : ActivationState
  moment : Moment
  /-- The position of the record among all records of the engine, counted from one. -/
  sequence : Nat
  deriving DecidableEq

/-- The document of a record, without its moment. -/
def ActivationRecord.toJson (r : ActivationRecord) : Json :=
  .object [("constraintId", .text r.id.text), ("fromState", r.source.toJson),
    ("toState", r.target.toJson), ("sequence", .ofNat r.sequence)]

/-- The state of a registered constraint, and when it was evaluated last. -/
structure ActivationStatus where
  id : ConstraintId
  state : ActivationState
  evaluated : Option Moment
  deriving DecidableEq

/-- The document of a status, which tells whether there was an evaluation but not when. -/
def ActivationStatus.toJson (s : ActivationStatus) : Json :=
  .object [("constraintId", .text s.id.text), ("state", s.state.toJson),
    ("active", .bool s.state.isActive), ("evaluated", .bool s.evaluated.isSome)]

end Mandate
