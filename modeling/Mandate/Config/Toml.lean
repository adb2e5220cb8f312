import Mandate.Config.Decoding
import Mandate.Toml.Document

/-!
# Configurations in TOML

A record is a table, or an array that holds the values of the fields in order; the array may end
early or hold more.  A word is a text, or a table whose one member has that name and is empty.
-/

namespace Mandate
namespace Toml

open Decode

/-- A number that is not negative. -/
def decodeNat : Value → Decoded Nat
  | .integer i => if 0 ≤ i then .ok i.toNat else .error .malformed
  | _ => .error .malformed

/-- A truth value. -/
def decodeBool : Value → Decoded Bool
  | .bool b => .ok b
  | _ => .error .malformed

/-- A table or an array without content. -/
def Value.isHollow : Value → Bool
  | .table _ [] => true
  | .array [] => true
  | _ => false

/-- A word out of a table of words. -/
def decodeWord {α : Type} (words : List (String × α)) : Value → Decoded α
  | .text s => lookUp words s
  | .table _ [(name, content)] =>
    if content.isHollow then lookUp words name else .error .malformed
  | _ => .error .malformed

/-- A record.  A moment counts as a table that has none of the fields. -/
def decodeRecord {α : Type} (r : Record Value α) : Value → Decoded α
  | .table _ members => r.ofMembers members
  | .date => r.ofMembers []
  | .array items => (r.ofItems items).map (·.1)
  | .tables items => (r.ofItems items.reverse).map (·.1)
  | _ => .error .malformed

/-- How values are read from TOML. -/
def dialect : Dialect Value where
  nat := decodeNat
  bool := decodeBool
  word := decodeWord
  record := decodeRecord

end Toml

/-- The configuration of a TOML text, if it is one. -/
def EngineConfig.ofToml? (text : String) : Option EngineConfig :=
  match Toml.read text with
  | none => none
  | some members => (EngineConfig.ofDocument Toml.dialect (.table .header members)).toOption

end Mandate
