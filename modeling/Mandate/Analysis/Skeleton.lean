import Mandate.Expr.Text
import Mandate.Expr.Encoding

/-!
# Atoms and skeletons

A formula splits into its atoms, the comparisons and predicates, and a skeleton of connectives that
refers to the atoms by position.  Positions count from zero, from left to right.

Main definitions:

* `Atom`, `Skeleton`.
* `Formula.atoms`, `Formula.skeleton`: the two parts of a formula.
* `Skeleton.rebuild?`: the formula of a skeleton and a list of atoms.
* `Formula.conjuncts`: the clauses of the conjunction at the top of a formula.
* `Atom.describe`, `Skeleton.render`: readable forms.
-/

namespace Mandate

/-- An indivisible part of a formula. -/
inductive Atom
  | base (p : Predicate)
  | compare (op : Relation) (left right : Term)
  deriving DecidableEq

/-- The connectives of a formula over the positions of its atoms. -/
inductive Skeleton
  | atom (index : Nat)
  | not (body : Skeleton)
  | and (left right : Skeleton)
  | or (left right : Skeleton)
  deriving DecidableEq

/-- The atom as a formula. -/
def Atom.toFormula : Atom → Formula
  | .base p => .base p
  | .compare op l r => .compare op l r

namespace Formula

/-- The atoms of a formula, from left to right. -/
def atoms : Formula → List Atom
  | .base p => [.base p]
  | .compare op l r => [.compare op l r]
  | .not f => f.atoms
  | .and l r | .or l r => l.atoms ++ r.atoms

/-- The skeleton of a formula whose first atom has the position `start`. -/
def skeletonFrom (start : Nat) : Formula → Skeleton
  | .base _ | .compare _ _ _ => .atom start
  | .not f => .not (f.skeletonFrom start)
  | .and l r => .and (l.skeletonFrom start) (r.skeletonFrom (start + l.atoms.length))
  | .or l r => .or (l.skeletonFrom start) (r.skeletonFrom (start + l.atoms.length))

/-- The skeleton of a formula. -/
def skeleton (f : Formula) : Skeleton :=
  f.skeletonFrom 0

end Formula

namespace Skeleton

/-- The number of connectives and atoms. -/
def complexity : Skeleton → Nat
  | .atom _ => 1
  | .not s => 1 + s.complexity
  | .and l r | .or l r => 1 + l.complexity + r.complexity

/-- The formula of a skeleton, if every position in it is that of an atom. -/
def rebuild? (atoms : List Atom) : Skeleton → Option Formula
  | .atom i => atoms[i]?.map Atom.toFormula
  | .not s => (s.rebuild? atoms).map .not
  | .and l r => do some (.and (← l.rebuild? atoms) (← r.rebuild? atoms))
  | .or l r => do some (.or (← l.rebuild? atoms) (← r.rebuild? atoms))

/-- The skeleton without pairs of negations. -/
def cancel : Skeleton → Skeleton
  | .atom i => .atom i
  | .not (.not s) => s.cancel
  | .not s => .not s.cancel
  | .and l r => .and l.cancel r.cancel
  | .or l r => .or l.cancel r.cancel

/-- The parts of the conjunction at the top of a skeleton. -/
def clauses : Skeleton → List Skeleton
  | .and l r => l.clauses ++ r.clauses
  | s => [s]

end Skeleton

/-- The clauses of the conjunction at the top of a formula, once pairs of negations are gone. -/
def Formula.conjuncts (f : Formula) : List Formula :=
  f.skeleton.cancel.clauses.filterMap (Skeleton.rebuild? f.atoms)

/-! ## Readable forms -/

/-- A numbered line about an atom. -/
def Atom.describe (index : Nat) (a : Atom) : String :=
  "atom #" ++ Decimal.natText index ++ ": " ++
    match a with
    | .base p => "base " ++ p.tag
    | .compare op l r => l.display ++ " " ++ op.symbol ++ " " ++ r.display

/-- A line for every atom. -/
def describeAtoms (atoms : List Atom) : List String :=
  atoms.zipIdx.map fun (a, i) => a.describe i

/-- What stands at a position of the skeleton. -/
def Atom.label : Option Atom → String
  | some (.base p) => "Base(" ++ p.tag ++ ")"
  | some (.compare op _ _) => "Compare(" ++ op.word ++ ")"
  | none => "<missing>"

/-- A line that is indented by two blanks for each level. -/
def indented (level : Nat) (line : String) : String :=
  String.ofList (List.replicate (2 * level) ' ') ++ line

/-- The lines of a skeleton, each part one level below its connective. -/
def Skeleton.lines (atoms : List Atom) (level : Nat) : Skeleton → List String
  | .atom i => [indented level ("#" ++ Decimal.natText i ++ " " ++ Atom.label atoms[i]?)]
  | .not s => indented level "NOT" :: s.lines atoms (level + 1)
  | .and l r => indented level "AND" :: (l.lines atoms (level + 1) ++ r.lines atoms (level + 1))
  | .or l r => indented level "OR" :: (l.lines atoms (level + 1) ++ r.lines atoms (level + 1))

/-- The skeleton as an indented tree. -/
def Skeleton.render (atoms : List Atom) (s : Skeleton) : String :=
  String.intercalate "\n" (s.lines atoms 0)

/-! ## JSON -/

/-- The document of an atom. -/
def Atom.toJson : Atom → Json
  | .base p => .object [("type", .text "base"), ("constraint", p.toJson)]
  | .compare op l r =>
    .object [("type", .text "comparison"), ("op", .text op.word), ("left", l.toJson),
      ("right", r.toJson)]

/-- The document of a skeleton. -/
def Skeleton.toJson : Skeleton → Json
  | .atom i => .object [("type", .text "atom"), ("index", .ofNat i)]
  | .not s => .object [("type", .text "not"), ("body", s.toJson)]
  | .and l r => .object [("type", .text "and"), ("left", l.toJson), ("right", r.toJson)]
  | .or l r => .object [("type", .text "or"), ("left", l.toJson), ("right", r.toJson)]

/-- The document of an analysis: the permission, the atoms, the skeleton and its complexity. -/
def Constraint.analysisJson (c : Constraint) : Json :=
  .object [("perm_id", .text c.permission.text), ("atoms", .array (c.body.atoms.map Atom.toJson)),
    ("structure", c.body.skeleton.toJson), ("complexity", .ofNat c.body.skeleton.complexity)]

end Mandate
