import Mandate.Expr.Text
import Mandate.Fact.Text

/-!
# Node values

What a node of the network holds, and how an operator makes its value out of the values of its
operands.  Connectives follow the three-valued logic of Kleene; arithmetic outside the evaluation
range has no definite value.

Main definitions:

* `Value`: a number, a truth value, or neither.
* `Operator`: what a node does.
* `Value.ofFact`: the value of a fact leaf on its input.
* `Operator.apply`: the value of any other node.
-/

namespace Mandate

/-- The value of a node. -/
inductive Value
  | num (n : Int)
  | bool (b : Bool)
  /-- The value cannot be computed from what is known. -/
  | indeterminate
  deriving DecidableEq

namespace Value

/-- The number, if the value is one. -/
def num? : Value → Option Int
  | num n => some n
  | _ => none

/-- The truth value, if the value is one. -/
def bool? : Value → Option Bool
  | bool b => some b
  | _ => none

/-- The value cannot be computed. -/
def isIndeterminate : Value → Bool
  | indeterminate => true
  | _ => false

/-- The value as an operator reads it. -/
def display : Value → String
  | num n => Decimal.intText n
  | bool true => "true"
  | bool false => "false"
  | indeterminate => "indeterminate"

/-- A number, if there is one. -/
def ofNum? : Option Int → Value
  | some n => num n
  | none => indeterminate

/-- A truth value, if there is one. -/
def ofBool? : Option Bool → Value
  | some b => bool b
  | none => indeterminate

/-- The value of a leaf for a fact, whose input may be missing, of the wrong kind, or too large. -/
def ofFact (key : FactKey) (input : Option FactValue) : Value :=
  match key.kind, input with
  | .uint, some (.uint q) => ofNum? q.value?
  | .bool, some (.bool b) => bool b
  | _, _ => indeterminate

/-- The negation of a truth value. -/
def not : Value → Value
  | bool b => bool !b
  | _ => indeterminate

/-- False if one side is false, and true if both are true. -/
def and : Value → Value → Value
  | bool false, _ => bool false
  | _, bool false => bool false
  | bool true, bool true => bool true
  | _, _ => indeterminate

/-- True if one side is true, and false if both are false. -/
def or : Value → Value → Value
  | bool true, _ => bool true
  | _, bool true => bool true
  | bool false, bool false => bool false
  | _, _ => indeterminate

end Value

/-- What a node does with the values of its operands. -/
inductive Operator
  | literal (n : Int)
  /-- The node follows a fact. -/
  | fact (key : FactKey)
  | add
  | sub
  | compare (op : Relation)
  | not
  | and
  | or
  deriving DecidableEq, Hashable

namespace Operator

/-- The operator as an operator of the service reads it. -/
def label : Operator → String
  | literal n => "literal(" ++ Decimal.intText n ++ ")"
  | fact key => "fact(" ++ key.display ++ ")"
  | add => "add"
  | sub => "sub"
  | compare op => "compare(" ++ op.symbol ++ ")"
  | not => "not"
  | and => "and"
  | or => "or"

/-- The fact that a node follows. -/
def fact? : Operator → Option FactKey
  | fact key => some key
  | _ => none

/-- The value of a node that follows no fact, from the values of its operands in order. -/
def apply : Operator → List Value → Value
  | literal n, _ => .num n
  | add, [.num a, .num b] => Value.ofNum? (checked (a + b))
  | sub, [.num a, .num b] => Value.ofNum? (checked (a - b))
  | compare op, [.num a, .num b] => .bool (op.holds a b)
  | not, [a] => a.not
  | and, [a, b] => a.and b
  | or, [a, b] => a.or b
  | _, _ => .indeterminate

end Operator

end Mandate
