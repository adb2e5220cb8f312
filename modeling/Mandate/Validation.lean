import Mandate.Expr.Decoding

/-!
# Well-formedness of constraints

A constraint is admissible if its identifiers are well formed, its literals lie in the evaluation
range, the periods of its rate limits are constants that are not negative, and its height and
number of nodes stay within limits.  The check walks through the tree once, a node before its
subtrees and these from left to right, and reports the first place where it finds a rule broken;
whether a period is a constant is asked when the walk is through with it.

Main definitions:

* `Limits`: the bounds.
* `Violation`: a broken rule with the path to its place.
* `Limits.check`: the first violation of a constraint.
* `Limits.decode`: the constraint of a text, if it is admissible.
-/

namespace Mandate

/-- Bounds on admissible constraints. -/
structure Limits where
  /-- The greatest height of a formula. -/
  maxDepth : Nat
  /-- The greatest number of nodes of a formula. -/
  maxNodes : Nat
  /-- The greatest number of bytes of an identifier. -/
  maxIdentifier : Nat
  deriving DecidableEq

/-- The usual bounds. -/
def Limits.standard : Limits :=
  ⟨32, 256, 128⟩

/-- The names of the fields that lead from a constraint to a place in it. -/
abbrev Path := List String

/-- The names of a path, joined by points. -/
def Path.display (path : Path) : String :=
  String.intercalate "." path

/-- A broken rule and the path to the place that breaks it. -/
inductive Violation
  | identifier (path : Path) (reason : IdentifierError)
  | depth (path : Path) (limit : Nat)
  | nodes (path : Path) (limit : Nat)
  | literal (path : Path) (value : Quantity)
  | period (path : Path)
  deriving DecidableEq

namespace Violation

/-- The place of the violation. -/
def path : Violation → Path
  | .identifier path _ | .depth path _ | .nodes path _ | .literal path _ | .period path => path

/-- The wording of the violation. -/
def message : Violation → String
  | .identifier path reason => "invalid identifier at " ++ path.display ++ ": " ++ reason.message
  | .depth path limit =>
    "expression at " ++ path.display ++ " exceeds the depth limit of " ++ Decimal.natText limit
  | .nodes path limit =>
    "expression at " ++ path.display ++ " exceeds the node limit of " ++ Decimal.natText limit
  | .literal path value =>
    "literal " ++ value.text ++ " at " ++ path.display ++ " exceeds the evaluation range"
  | .period path => "rate-limit period at " ++ path.display ++ " must be a constant expression"

end Violation

namespace Limits

/-- A step of the walk: the number of nodes seen so far, or the first violation. -/
abbrev Step := Except Violation Nat

/-- Comes to a node at the given depth, with `seen` nodes before it. -/
def enter (limits : Limits) (path : Path) (depth seen : Nat) : Step :=
  if limits.maxDepth < depth then .error (.depth path limits.maxDepth)
  else if limits.maxNodes < seen + 1 then .error (.nodes path limits.maxNodes)
  else .ok (seen + 1)

/-- Looks at an identifier in a field. -/
def checkName (limits : Limits) (path : Path) (field name : String) (seen : Nat) : Step :=
  match checkIdentifier limits.maxIdentifier name with
  | some reason => .error (.identifier (path ++ [field]) reason)
  | none => .ok seen

/-- Walks through a term. -/
def checkTerm (limits : Limits) : Path → (depth seen : Nat) → Term → Step
  | path, depth, seen, t => do
    let seen ← limits.enter path depth seen
    match t with
    | .literal q => if q.fits then .ok seen else .error (.literal path q)
    | .blockNumber => .ok seen
    | .stakeOf a => limits.checkName path "account" a.text seen
    | .add l r | .sub l r => do
      let seen ← limits.checkTerm (path ++ ["left"]) (depth + 1) seen l
      limits.checkTerm (path ++ ["right"]) (depth + 1) seen r
    | .weightSet s t | .weightPower s t => do
      let seen ← limits.checkName path "from" s.text seen
      limits.checkName path "to" t.text seen

/-- The period of a rate limit is a constant that is not negative. -/
def isPeriod (t : Term) : Bool :=
  match t.constantValue? with
  | some n => 0 ≤ n
  | none => false

/-- Walks through a predicate. -/
def checkPredicate (limits : Limits) (path : Path) (depth seen : Nat) (p : Predicate) : Step := do
  let seen ← limits.enter path depth seen
  match p with
  | .maxDelegationDepth d => limits.checkTerm (path ++ ["depth"]) (depth + 1) seen d
  | .permissionExists p | .permissionEnabled p => limits.checkName path "pid" p.text seen
  | .rateLimit m p => do
    let seen ← limits.checkTerm (path ++ ["maxOperations"]) (depth + 1) seen m
    let seen ← limits.checkTerm (path ++ ["period"]) (depth + 1) seen p
    if isPeriod p then .ok seen else .error (.period (path ++ ["period"]))
  | .inactiveUnlessRedelegated => .ok seen

/-- Walks through a formula. -/
def checkFormula (limits : Limits) : Path → (depth seen : Nat) → Formula → Step
  | path, depth, seen, f => do
    let seen ← limits.enter path depth seen
    match f with
    | .not f => limits.checkFormula (path ++ ["body"]) (depth + 1) seen f
    | .and l r | .or l r => do
      let seen ← limits.checkFormula (path ++ ["left"]) (depth + 1) seen l
      limits.checkFormula (path ++ ["right"]) (depth + 1) seen r
    | .compare _ l r => do
      let seen ← limits.checkTerm (path ++ ["left"]) (depth + 1) seen l
      limits.checkTerm (path ++ ["right"]) (depth + 1) seen r
    | .base p => limits.checkPredicate (path ++ ["body"]) (depth + 1) seen p

/-- Walks through a constraint: its permission, then its formula. -/
def walk (limits : Limits) (c : Constraint) : Step := do
  let seen ← limits.checkName [] "permId" c.permission.text 0
  limits.checkFormula ["body"] 1 seen c.body

/-- The first violation of a constraint, if there is one. -/
def check (limits : Limits) (c : Constraint) : Option Violation :=
  match limits.walk c with
  | .ok _ => none
  | .error v => some v

end Limits

/-- Why a text is not an admissible constraint. -/
inductive Rejection
  | malformed (error : DecodeError)
  | violation (v : Violation)
  deriving DecidableEq

namespace Rejection

/-- The wording, where the decoder has one. -/
def message? : Rejection → Option String
  | .malformed e => e.message?.map ("malformed constraint: " ++ ·)
  | .violation v => some v.message

/-- The path to the place of a violation. -/
def path? : Rejection → Option Path
  | .malformed _ => none
  | .violation v => some v.path

end Rejection

/-- The constraint itself, if it is admissible. -/
def Limits.accept (limits : Limits) (c : Constraint) : Except Rejection Constraint :=
  match limits.check c with
  | none => .ok c
  | some v => .error (.violation v)

/-- The constraint of a text, if it is admissible. -/
def Limits.decode (limits : Limits) (text : String) : Except Rejection Constraint :=
  match Constraint.ofText text with
  | .ok c => limits.accept c
  | .error e => .error (.malformed e)

end Mandate
