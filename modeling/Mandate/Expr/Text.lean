import Mandate.Expr.Basic

/-!
# The readable form of expressions

Binary operators are written between their operands, inside parentheses; everything else is a name
followed by its arguments in parentheses.
-/

namespace Mandate

/-- A term as an operator reads it. -/
def Term.display : Term → String
  | .literal q => q.text
  | .blockNumber => "block-number"
  | .stakeOf a => "stake-of(" ++ a.text ++ ")"
  | .add l r => "(" ++ l.display ++ " + " ++ r.display ++ ")"
  | .sub l r => "(" ++ l.display ++ " - " ++ r.display ++ ")"
  | .weightSet s t => "weight-set(" ++ s.text ++ "->" ++ t.text ++ ")"
  | .weightPower s t => "weight-power-from(" ++ s.text ++ "->" ++ t.text ++ ")"

/-- The sign of a relation. -/
def Relation.symbol : Relation → String
  | .gt => ">"
  | .lt => "<"
  | .gte => ">="
  | .lte => "<="
  | .eq => "=="

/-- A predicate as an operator reads it. -/
def Predicate.display : Predicate → String
  | .maxDelegationDepth d => "max-delegation-depth(" ++ d.display ++ ")"
  | .permissionExists p => "permission-exists(" ++ p.text ++ ")"
  | .permissionEnabled p => "permission-enabled(" ++ p.text ++ ")"
  | .rateLimit m p => "rate-limit(" ++ m.display ++ " per " ++ p.display ++ ")"
  | .inactiveUnlessRedelegated => "inactive-unless-redelegated"

/-- A formula as an operator reads it. -/
def Formula.display : Formula → String
  | .not f => "not(" ++ f.display ++ ")"
  | .and l r => "(" ++ l.display ++ " and " ++ r.display ++ ")"
  | .or l r => "(" ++ l.display ++ " or " ++ r.display ++ ")"
  | .compare op l r => "(" ++ l.display ++ " " ++ op.symbol ++ " " ++ r.display ++ ")"
  | .base p => p.display

/-- A constraint as an operator reads it: its permission, then its formula. -/
def Constraint.display (c : Constraint) : String :=
  c.permission.text ++ ": " ++ c.body.display

end Mandate
