/-!
# TOML tables

The values of a document, and the rules on what may be added to a table.  A table may be opened by
a header only once, and only if no dotted key has made it before; a dotted key may add only to
tables that dotted keys or headers of inner tables have made; a table between braces is complete;
no key may be given twice.  Headers in double brackets open one table after the other under the
same name.

Main definitions:

* `Value`, `Members`: values and the content of tables.
* `Origin`: how a table came about.
* `change?`: a change to the table at a path.
* `insert?`: a new value in a table.
* `openTable?`, `openTables?`: what headers do.

Main results:

* `lookup_assign_self`, `lookup_assign_of_ne`: a member that is set is found, and no other changes.
-/

namespace Mandate
namespace Toml

/-- How a table came about; this decides what may be added to it. -/
inductive Origin
  /-- It stands between braces. -/
  | braces
  /-- A header has opened it. -/
  | header
  /-- The header of an inner table has made it. -/
  | implied
  /-- A dotted key has made it. -/
  | dotted
  deriving DecidableEq

/-- A value of a document. -/
inductive Value
  | text (s : String)
  | integer (i : Int)
  /-- A number that is no integer. -/
  | real
  | bool (b : Bool)
  /-- A date, a time of day, or both. -/
  | date
  | array (items : List Value)
  | table (origin : Origin) (members : List (String × Value))
  /-- The tables that headers in double brackets have opened, last first. -/
  | tables (items : List Value)

/-- The content of a table. -/
abbrev Members :=
  List (String × Value)

/-- The members with that of a name set, in its old place or at the end. -/
def assign (name : String) (v : Value) : Members → Members
  | [] => [(name, v)]
  | (other, old) :: rest =>
    if other = name then (name, v) :: rest else (other, old) :: assign name v rest

theorem lookup_assign_self (name : String) (v : Value) (members : Members) :
    (assign name v members).lookup name = some v := by
  induction members with
  | nil => simp [assign]
  | cons member rest ih =>
    obtain ⟨other, old⟩ := member
    by_cases h : other = name
    · simp [assign, h]
    · have hne : (name == other) = false := beq_eq_false_iff_ne.mpr (Ne.symm h)
      simp [assign, h, List.lookup_cons, hne, ih]

theorem lookup_assign_of_ne {name other : String} (h : other ≠ name) (v : Value)
    (members : Members) : (assign name v members).lookup other = members.lookup other := by
  have hne : (other == name) = false := beq_eq_false_iff_ne.mpr h
  induction members with
  | nil => simp [assign, List.lookup_cons, hne]
  | cons member rest ih =>
    obtain ⟨key, old⟩ := member
    by_cases hk : key = name
    · subst hk
      simp [assign, List.lookup_cons, hne]
    · simp [assign, hk, List.lookup_cons, ih]

/-- A path may lead through a table.  `made` is the origin of the tables that the path makes. -/
def Origin.admits : (origin made : Origin) → Bool
  | .braces, _ => false
  | .header, made => made != .dotted
  | .implied, _ => true
  | .dotted, _ => true

/-- Applies a change to the table at a path from a table of the given origin.  Missing tables on
the way are made. -/
def change? (made : Origin) (change : Origin → Members → Option Members) :
    (path : List String) → Origin → Members → Option Members
  | [], origin, members => change origin members
  | name :: path, _, members =>
    match members.lookup name with
    | none =>
      (change? made change path made []).map fun inner =>
        assign name (.table made inner) members
    | some (.table origin inner) =>
      if origin.admits made then
        (change? made change path origin inner).map fun inner =>
          assign name (.table origin inner) members
      else none
    | some (.tables (.table origin inner :: earlier)) =>
      (change? made change path origin inner).map fun inner =>
        assign name (.tables (.table origin inner :: earlier)) members
    | some _ => none

/-- Adds a value under a key, of which `path` are the leading parts.  They may lead only to a table
that dotted keys have made. -/
def insert? (path : List String) (name : String) (v : Value) :
    Origin → Members → Option Members :=
  change? .dotted (fun origin members =>
    if path.isEmpty || origin == .dotted then
      match members.lookup name with
      | some _ => none
      | none => some (assign name v members)
    else none) path

/-- Opens the table of a header. -/
def openTable? (path : List String) (name : String) (members : Members) : Option Members :=
  change? .implied (fun _ members =>
    match members.lookup name with
    | none => some (assign name (.table .header []) members)
    | some (.table .implied inner) => some (assign name (.table .header inner) members)
    | some _ => none) path .header members

/-- Opens one more table under the name of a header in double brackets. -/
def openTables? (path : List String) (name : String) (members : Members) : Option Members :=
  change? .implied (fun _ members =>
    match members.lookup name with
    | none => some (assign name (.tables [.table .header []]) members)
    | some (.tables earlier) =>
      some (assign name (.tables (.table .header [] :: earlier)) members)
    | some _ => none) path .header members

/-- Adds a value to the table that the last header has opened. -/
def insertUnder? (header path : List String) (name : String) (v : Value) (members : Members) :
    Option Members :=
  change? .implied (insert? path name v) header .header members

end Toml
end Mandate
