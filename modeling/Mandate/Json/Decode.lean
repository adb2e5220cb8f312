import Mandate.Json.Reader
import Mandate.Text.Blank
import Mandate.Text.Quoted
import Mandate.Quantity

/-!
# Decoding JSON

Readers of domain values from documents.  A record is written as an object, in any order and with
foreign members ignored, or as the list of its fields.  A tagged value carries the name of its
variant in the member `$`, or as the first item of a list.  A word out of a fixed set is written
as a text, or as an object whose one member has that name.  Records are read from documents of any
kind `δ`, everything else from JSON.

Main definitions:

* `DecodeError`: why a document is no domain value.
* `Record`: how a record is read from members and from items.
* `Record.one`, `Record.two`, `Record.three`: records by number of fields.
* `decodeBounded`, `splitTag`: the limit on a tagged value, its tag and its remaining content.
* `decodeVariant`, `decodeWord`, `decodeQuantity`: variants, words and unsigned numbers.
-/

namespace Mandate

/-- Why a document cannot be decoded. -/
inductive DecodeError
  | unknownVariant (found : String) (expected : List String)
  | missingField (name : String)
  | duplicateField (name : String)
  | negative (value : Int)
  | invalidUnsigned (text : String)
  | unsignedOutOfRange (text : String)
  | invalidFactKey (text : String)
  /-- The text is no document, or a value has the wrong form. -/
  | malformed
  deriving DecidableEq

/-- The result of decoding. -/
abbrev Decoded (α : Type) := Except DecodeError α

namespace Decode

/-- A name between grave accents. -/
def ticked (name : String) : String :=
  "`" ++ name ++ "`"

/-- The variants that would have been accepted. -/
def expectation : List String → String
  | [a] => ticked a
  | [a, b] => ticked a ++ " or " ++ ticked b
  | names => "one of " ++ String.intercalate ", " (names.map ticked)

end Decode

/-- The wording of an error; a document of the wrong form has none. -/
def DecodeError.message? : DecodeError → Option String
  | .unknownVariant found expected =>
    some ("unknown variant " ++ Decode.ticked found ++ ", expected " ++ Decode.expectation expected)
  | .missingField name => some ("missing field " ++ Decode.ticked name)
  | .duplicateField name => some ("duplicate field " ++ Decode.ticked name)
  | .negative value => some ("negative value " ++ Decimal.intText value)
  | .invalidUnsigned text => some ("invalid unsigned integer " ++ Text.quote text)
  | .unsignedOutOfRange text => some ("unsigned integer " ++ Text.quote text ++ " out of range")
  | .invalidFactKey text => some ("invalid fact key " ++ Text.quote text)
  | .malformed => none

namespace Decode

/-! ## Records -/

/-- A field of a record: its name, how its value is read from a document, and what stands for it
when it is absent. -/
structure Field (δ α : Type) where
  name : String
  decode : δ → Decoded α
  absent : Option α

variable {δ : Type}

/-- A field that must be present. -/
def Field.required {α : Type} (name : String) (decode : δ → Decoded α) : Field δ α :=
  ⟨name, decode, none⟩

/-- A field that may be absent. -/
def Field.optional {α : Type} (name : String) (decode : δ → Decoded α) (absent : α) : Field δ α :=
  ⟨name, decode, some absent⟩

/-- Reads the value of a field into its slot, which must be empty. -/
def Field.fill {α : Type} (f : Field δ α) (slot : Option α) (d : δ) : Decoded (Option α) :=
  match slot with
  | some _ => .error (.duplicateField f.name)
  | none => (f.decode d).map some

/-- The value of a field once all members have been seen. -/
def Field.take {α : Type} (f : Field δ α) (slot : Option α) : Decoded α :=
  match slot, f.absent with
  | some a, _ => .ok a
  | none, some a => .ok a
  | none, none => .error (.missingField f.name)

/-- The value of a field from the front of a list of items, and the other items.  An item may be
left out only at the end of the list, and only if `short` allows it. -/
def Field.pop {α : Type} (f : Field δ α) (short : Bool) (items : List δ) :
    Decoded (α × List δ) :=
  match items, short, f.absent with
  | d :: items, _, _ => (f.decode d).map (·, items)
  | [], true, some a => .ok (a, [])
  | [], _, _ => .error .malformed

/-- How a record is read from the members of an object, and from the front of a list of items. -/
structure Record (δ α : Type) where
  ofMembers : List (String × δ) → Decoded α
  ofItems : List δ → Decoded (α × List δ)

/-- Runs through the members of an object in order. -/
def foldMembers {σ : Type} (step : σ → String → δ → Decoded σ) :
    σ → List (String × δ) → Decoded σ
  | state, [] => .ok state
  | state, (name, d) :: rest =>
    match step state name d with
    | .ok state => foldMembers step state rest
    | .error e => .error e

/-- A record without fields. -/
def Record.zero {α : Type} (a : α) : Record δ α where
  ofMembers := fun _ => .ok a
  ofItems := fun items => .ok (a, items)

/-- A record of one field. -/
def Record.one {α : Type} (f : Field δ α) : Record δ α where
  ofMembers := fun members => do
    let slot ← foldMembers (fun slot name d =>
      if name = f.name then f.fill slot d else .ok slot) none members
    f.take slot
  ofItems := f.pop false

/-- A record of two fields; `short` says whether a list may end before all of them. -/
def Record.two {α β : Type} (short : Bool) (f : Field δ α) (g : Field δ β) : Record δ (α × β) where
  ofMembers := fun members => do
    let (a, b) ← foldMembers (fun (a, b) name d =>
      if name = f.name then (f.fill a d).map (·, b)
      else if name = g.name then (g.fill b d).map (a, ·)
      else .ok (a, b)) (none, none) members
    let a ← f.take a
    let b ← g.take b
    pure (a, b)
  ofItems := fun items => do
    let (a, items) ← f.pop short items
    let (b, items) ← g.pop short items
    pure ((a, b), items)

/-- A record of three fields; `short` says whether a list may end before all of them. -/
def Record.three {α β γ : Type} (short : Bool) (f : Field δ α) (g : Field δ β) (h : Field δ γ) :
    Record δ (α × β × γ) where
  ofMembers := fun members => do
    let (a, b, c) ← foldMembers (fun (a, b, c) name d =>
      if name = f.name then (f.fill a d).map (·, b, c)
      else if name = g.name then (g.fill b d).map (a, ·, c)
      else if name = h.name then (h.fill c d).map (a, b, ·)
      else .ok (a, b, c)) (none, none, none) members
    let a ← f.take a
    let b ← g.take b
    let c ← h.take c
    pure (a, b, c)
  ofItems := fun items => do
    let (a, items) ← f.pop short items
    let (b, items) ← g.pop short items
    let (c, items) ← h.pop short items
    pure ((a, b, c), items)

/-- Turns the fields of a record into a value. -/
def Record.map {α β : Type} (f : α → β) (r : Record δ α) : Record δ β where
  ofMembers := fun members => (r.ofMembers members).map f
  ofItems := fun items => (r.ofItems items).map fun (a, items) => (f a, items)

/-- A record from a list of items, all of which it takes. -/
def Record.ofAllItems {α : Type} (r : Record δ α) (items : List δ) : Decoded α :=
  match r.ofItems items with
  | .ok (a, []) => .ok a
  | .ok (_, _ :: _) => .error .malformed
  | .error e => .error e

/-- A record from an object or a list. -/
def Record.decode {α : Type} (r : Record Json α) : Json → Decoded α
  | .object members => r.ofMembers members
  | .array items => r.ofAllItems items
  | _ => .error .malformed

/-! ## Tagged values -/

/-- The content of a tagged value, without its tag. -/
inductive Content
  | members (members : List (String × Json))
  | items (items : List Json)

/-- The content as a record. -/
def Content.as {α : Type} (r : Record Json α) : Content → Decoded α
  | .members ms => r.ofMembers ms
  | .items js => r.ofAllItems js

/-- The greatest number of arrays and objects around a value inside a tagged one. -/
def nestingLimit : Nat := 127

/-- Decodes a tagged value with `outer` arrays and objects around it.  All of the document counts,
also what the decoder ignores: it may not be void, nor too deep. -/
def decodeBounded {α : Type} (outer : Nat) (decode : Json → Decoded α) (j : Json) : Decoded α :=
  if j.readable && outer + j.nesting ≤ nestingLimit then decode j else .error .malformed

/-- The name of the member that holds the tag. -/
def tagName : String := "$"

/-- A tag, which is one of the given names.  Inside another tagged value it may also be the
position of the name among them, counted from zero. -/
def decodeTag (inner : Bool) (tags : List String) : Json → Decoded String
  | .text s => if s ∈ tags then .ok s else .error (.unknownVariant s tags)
  | .integer (.ofNat i) =>
    match inner, tags[i]? with
    | true, some tag => .ok tag
    | _, _ => .error .malformed
  | _ => .error .malformed

/-- Looks for the tag among members: the tag and the other members, in order. -/
def splitMembers (inner : Bool) (tags : List String) :
    Option String → List (String × Json) → Decoded (String × List (String × Json))
  | some tag, [] => .ok (tag, [])
  | none, [] => .error (.missingField tagName)
  | tag, (name, j) :: rest =>
    if name = tagName then
      match tag with
      | some _ => .error (.duplicateField tagName)
      | none =>
        match decodeTag inner tags j with
        | .ok tag => splitMembers inner tags (some tag) rest
        | .error e => .error e
    else (splitMembers inner tags tag rest).map fun (tag, others) => (tag, (name, j) :: others)

/-- The tag of a value and its other content. -/
def splitTag (inner : Bool) (tags : List String) : Json → Decoded (String × Content)
  | .object members =>
    (splitMembers inner tags none members).map fun (tag, ms) => (tag, .members ms)
  | .array [] => .error (.missingField tagName)
  | .array (j :: items) => (decodeTag inner tags j).map (·, .items items)
  | _ => .error .malformed

/-! ## Words, texts and numbers -/

/-- A text. -/
def decodeText : Json → Decoded String
  | .text s => .ok s
  | _ => .error .malformed

/-- A truth value. -/
def decodeBool : Json → Decoded Bool
  | .bool b => .ok b
  | _ => .error .malformed

/-- The value of a word in a table. -/
def lookUp {α : Type} (table : List (String × α)) (s : String) : Decoded α :=
  match table.lookup s with
  | some a => .ok a
  | none => .error (.unknownVariant s (table.map (·.1)))

/-- A variant out of a table: a text is the name of a variant that stands alone, and an object
names the variant in its first and only member. -/
def decodeVariant {α β : Type} (table : List (String × α)) (alone : α → Decoded β)
    (content : α → Json → Decoded β) : Json → Decoded β
  | .text s => do alone (← lookUp table s)
  | .object ((name, j) :: others) => do
    let b ← content (← lookUp table name) j
    if others.isEmpty then pure b else .error .malformed
  | _ => .error .malformed

/-- A word out of a table, alone or with `null` for its content. -/
def decodeWord {α : Type} (table : List (String × α)) : Json → Decoded α :=
  decodeVariant table .ok fun a j =>
    match j with
    | .null => .ok a
    | _ => .error .malformed

/-- A word inside a tagged value.  An object for it has one member, and may be as hollow as its
content. -/
def decodeInnerWord {α : Type} (table : List (String × α)) : Json → Decoded α
  | .object [(name, .object [])] => lookUp table name
  | .object (_ :: _ :: _) => .error .malformed
  | j => decodeWord table j

/-- A quantity from a text: digits, with white space around them. -/
def quantityOfText (s : String) : Decoded Quantity :=
  match Decimal.toNat? (Text.trimBlanks s.toList) with
  | none => .error (.invalidUnsigned s)
  | some n =>
    match Quantity.ofNat? n with
    | none => .error (.unsignedOutOfRange s)
    | some q => .ok q

/-- A quantity from an integer of the document. -/
def quantityOfInt (i : Int) : Decoded Quantity :=
  if i < 0 then .error (.negative i)
  else
    match Quantity.ofNat? i.toNat with
    | some q => .ok q
    | none => .error .malformed

/-- A quantity, as a text of digits or as an integer. -/
def decodeQuantity : Json → Decoded Quantity
  | .text s => quantityOfText s
  | .integer i => quantityOfInt i
  | _ => .error .malformed

/-- A natural number of 64 bits. -/
def decodeNat : Json → Decoded Nat
  | .integer i => if 0 ≤ i then .ok i.toNat else .error .malformed
  | _ => .error .malformed

/-- Decodes the document of a text. -/
def ofText {α : Type} (decode : Json → Decoded α) (text : String) : Decoded α :=
  match Json.read text with
  | some j => decode j
  | none => .error .malformed

end Decode

end Mandate
