import Mandate.Json.Token

/-!
# Reading JSON

The tokens of a document drive a small machine: its stack holds the arrays and objects that are
open, and its state says what may come next.

Main definitions:

* `Reading`: the states of the machine.
* `Reading.step`: what a token does.
* `Json.read`: the document of a text.
-/

namespace Mandate
namespace Json

/-- An open array or object around the value that is being read. -/
inductive Frame
  /-- The items before the value, last first. -/
  | array (before : List Json)
  /-- The members before the value, last first, and the name of the value. -/
  | object (before : List (Option String × Json)) (name : Option String)

/-- What has been read and what may come next. -/
inductive Reading
  /-- A value is due, or a closing square bracket if nothing has been read in the array. -/
  | value (stack : List Frame) (mayClose : Bool)
  /-- A name is due, or a closing curly bracket if nothing has been read in the object. -/
  | key (before : List (Option String × Json)) (stack : List Frame) (mayClose : Bool)
  /-- The colon behind a name is due. -/
  | colon (before : List (Option String × Json)) (name : Option String) (stack : List Frame)
  /-- A value is complete. -/
  | done (value : Json) (stack : List Frame)

/-- The object of some members, in order; void if a name denotes nothing. -/
def ofMembers : List (Option String × Json) → List (String × Json) → Json
  | [], members => .object members
  | (some name, j) :: before, members => ofMembers before ((name, j) :: members)
  | (none, _) :: _, _ => .void

/-- The value of a text token. -/
def ofText : Option String → Json
  | some s => .text s
  | none => .void

namespace Reading

/-- A token moves the machine on, or is out of place. -/
def step : Reading → Json.Token → Option Reading
  | .value stack _, .scalar j => some (.done j stack)
  | .value stack _, .text s => some (.done (ofText s) stack)
  | .value stack _, .opening .square => some (.value (.array [] :: stack) true)
  | .value stack _, .opening .curly => some (.key [] stack true)
  | .value (.array _ :: stack) true, .closing .square => some (.done (.array []) stack)
  | .key before stack _, .text s => some (.colon before s stack)
  | .key _ stack true, .closing .curly => some (.done (.object []) stack)
  | .colon before name stack, .colon => some (.value (.object before name :: stack) false)
  | .done j (.array before :: stack), .comma => some (.value (.array (j :: before) :: stack) false)
  | .done j (.array before :: stack), .closing .square =>
    some (.done (.array (j :: before).reverse) stack)
  | .done j (.object before name :: stack), .comma => some (.key ((name, j) :: before) stack false)
  | .done j (.object before name :: stack), .closing .curly =>
    some (.done (ofMembers ((name, j) :: before) []) stack)
  | _, _ => none

/-- A run over all tokens. -/
def run : Reading → List Json.Token → Option Reading
  | state, [] => some state
  | state, token :: tokens =>
    match state.step token with
    | none => none
    | some state => run state tokens

/-- The document, if it is complete. -/
def result? : Reading → Option Json
  | .done j [] => some j
  | _ => none

end Reading

/-- The document of some tokens. -/
def ofTokens (tokens : List Token) : Option Json :=
  (Reading.run (.value [] false) tokens).bind Reading.result?

/-- The document of a text, with white space allowed around every token and nothing else. -/
def read (text : String) : Option Json :=
  (Token.scan text.toList).bind ofTokens

end Json
end Mandate
