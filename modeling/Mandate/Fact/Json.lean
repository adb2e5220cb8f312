import Mandate.Fact.Text
import Mandate.Json.Decode
import Mandate.Json.Printer

/-!
# The JSON form of facts

A key is its text.  A value is an object with one member that is named for its kind, and numbers
are decimal texts.
-/

namespace Mandate

open Decode

/-- The document of a key. -/
def FactKey.toJson (k : FactKey) : Json :=
  .text k.display

/-- The key of a text, or the error that it is none. -/
def FactKey.decode (text : String) : Decoded FactKey :=
  match FactKey.ofText? text with
  | some k => .ok k
  | none => .error (.invalidFactKey text)

/-- The key of a document. -/
def FactKey.ofJson (j : Json) : Decoded FactKey := do
  FactKey.decode (← decodeText j)

/-- The words for kinds. -/
def FactKind.words : List (String × FactKind) :=
  [("uint", .uint), ("bool", .bool)]

/-- The word for a kind. -/
def FactKind.word : FactKind → String
  | .uint => "uint"
  | .bool => "bool"

/-- The document of a kind. -/
def FactKind.toJson (k : FactKind) : Json :=
  .text k.word

/-- The kind of a document. -/
def FactKind.ofJson : Json → Decoded FactKind :=
  decodeWord FactKind.words

/-- The document of a value. -/
def FactValue.toJson : FactValue → Json
  | .uint q => .object [("uint", .text q.text)]
  | .bool b => .object [("bool", .bool b)]

/-- The value of a document. -/
def FactValue.ofJson : Json → Decoded FactValue :=
  decodeVariant FactKind.words (fun _ => .error .malformed) fun kind j =>
    match kind with
    | .uint => (decodeQuantity j).map .uint
    | .bool => (decodeBool j).map .bool

/-- The document of a fact. -/
def Fact.toJson (f : Fact) : Json :=
  .object [("key", f.key.toJson), ("value", f.value.toJson)]

/-- The fact of a document. -/
def Fact.ofJson : Json → Decoded Fact :=
  ((Record.two false (.required "key" FactKey.ofJson) (.required "value" FactValue.ofJson)).map
    fun (k, v) => Fact.mk k v).decode

/-- The document of news about a key. -/
def FactUpdate.toJson (u : FactUpdate) : Json :=
  .object [("key", u.key.toJson), ("value", .ofOption (u.value.map FactValue.toJson))]

/-- A value, or `null`. -/
def FactValue.optionOfJson : Json → Decoded (Option FactValue)
  | .null => .ok none
  | j => (FactValue.ofJson j).map some

/-- The news of a document; in an object the value may be left out. -/
def FactUpdate.ofJson : Json → Decoded FactUpdate :=
  ((Record.two false (.required "key" FactKey.ofJson)
    (.optional "value" FactValue.optionOfJson none)).map fun (k, v) => FactUpdate.mk k v).decode

end Mandate
