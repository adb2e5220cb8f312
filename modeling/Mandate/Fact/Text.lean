import Mandate.Fact.Basic
import Mandate.Text.Split

/-!
# The texts of fact keys

A key is written as the word for its quantity, a colon, and its names.  Two names are joined by an
arrow, and the period of an operation count follows an at sign.  Reading cuts at the first colon,
the first arrow and the last at sign; no part may be empty.

Main definitions:

* `FactKey.display`: the text of a key.
* `FactKey.ofText?`: the key of a text.
* `FactValue.display`: the text of a value.
-/

namespace Mandate

namespace FactKey

/-- The text of a key. -/
def display : FactKey → String
  | .blockNumber => "block-number"
  | .stakeOf a => "stake-of:" ++ a.text
  | .weightSet s t => "weight-set:" ++ s.text ++ "->" ++ t.text
  | .weightPower s t => "weight-power-from:" ++ s.text ++ "->" ++ t.text
  | .permissionExists p => "permission-exists:" ++ p.text
  | .permissionEnabled p => "permission-enabled:" ++ p.text
  | .delegationDepth p => "delegation-depth:" ++ p.text
  | .operationCount p period => "operation-count:" ++ p.text ++ "@" ++ period.text
  | .redelegated p => "redelegated:" ++ p.text

/-- Two names around the first arrow. -/
def accounts? (cs : List Char) : Option (AccountId × AccountId) :=
  match Text.splitFirst? ['-', '>'] cs with
  | some (s, t) =>
    if s.isEmpty || t.isEmpty then none
    else some (⟨String.ofList s⟩, ⟨String.ofList t⟩)
  | none => none

/-- A numeral of 128 bits, possibly with a plus sign in front. -/
def numeral? (cs : List Char) : Option Quantity :=
  let digits := match cs with
    | '+' :: cs => cs
    | cs => cs
  (Decimal.toNat? digits).bind Quantity.ofNat?

/-- A name and a period around the last at sign. -/
def countedPeriod? (cs : List Char) : Option (PermId × Quantity) :=
  match Text.splitLast? '@' cs with
  | some (p, n) =>
    if p.isEmpty then none else (numeral? n).map fun period => (⟨String.ofList p⟩, period)
  | none => none

/-- The key of a quantity, given by its word, with the text behind the colon. -/
def ofParts? (word : String) (rest : List Char) : Option FactKey :=
  match word with
  | "stake-of" => some (.stakeOf ⟨String.ofList rest⟩)
  | "weight-set" => (accounts? rest).map fun (s, t) => .weightSet s t
  | "weight-power-from" => (accounts? rest).map fun (s, t) => .weightPower s t
  | "permission-exists" => some (.permissionExists ⟨String.ofList rest⟩)
  | "permission-enabled" => some (.permissionEnabled ⟨String.ofList rest⟩)
  | "delegation-depth" => some (.delegationDepth ⟨String.ofList rest⟩)
  | "operation-count" => (countedPeriod? rest).map fun (p, n) => .operationCount p n
  | "redelegated" => some (.redelegated ⟨String.ofList rest⟩)
  | _ => none

/-- The key of a text. -/
def ofText? (text : String) : Option FactKey :=
  if text = "block-number" then some .blockNumber
  else
    match Text.splitFirst? [':'] text.toList with
    | some (word, rest) => if rest.isEmpty then none else ofParts? (String.ofList word) rest
    | none => none

end FactKey

/-- The text of a value. -/
def FactValue.display : FactValue → String
  | .uint q => q.text
  | .bool true => "true"
  | .bool false => "false"

end Mandate
