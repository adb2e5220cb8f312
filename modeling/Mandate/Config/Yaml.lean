import Mandate.Config.Decoding
import Mandate.Yaml.Node

/-!
# Configurations in YAML

A record is a mapping whose keys are scalars, or nothing at all.  Numbers and truth values are
plain scalars, or literal blocks with the tag of their kind; a word is a scalar of any style, or a
tag of its own in front of nothing.

Main definitions:

* `Yaml.unsigned?`, `Yaml.truth?`: the numbers and truth values of texts.
* `Yaml.dialect`: how values are read from YAML.
-/

namespace Mandate
namespace Yaml

open Decode
open Text (hexDigit?)

/-! ## Texts -/

/-- Extends a number by digits in a base up to sixteen. -/
def numeralFrom? (base n : Nat) : List Char → Option Nat
  | [] => some n
  | c :: cs =>
    match (hexDigit? c).filter (· < base) with
    | some d => numeralFrom? base (base * n + d) cs
    | none => none

/-- A numeral in a base up to sixteen. -/
def numeral? (base : Nat) (cs : List Char) : Option Nat :=
  if cs.isEmpty then none else numeralFrom? base 0 cs

/-- An unsigned integer of 64 bits: in base sixteen, eight or two behind a mark, or in base ten
without leading zeros; a plus sign may stand in front. -/
def unsigned? (text : String) : Option Nat :=
  let bare :=
    match text.toList with
    | '+' :: cs => cs
    | cs => cs
  let n :=
    match bare with
    | '0' :: 'x' :: cs => numeral? 16 cs
    | '0' :: 'o' :: cs => numeral? 8 cs
    | '0' :: 'b' :: cs => numeral? 2 cs
    | '0' :: _ :: _ => none
    | cs => numeral? 10 cs
  n.filter (· < 0x10000000000000000)

/-- The words for truth values. -/
def truth? (text : String) : Option Bool :=
  if text ∈ ["true", "True", "TRUE"] then some true
  else if text ∈ ["false", "False", "FALSE"] then some false
  else none

/-- The words for nothing. -/
def isNull (text : String) : Bool :=
  text ∈ ["", "~", "null", "Null", "NULL"]

/-! ## Nodes -/

/-- The value of a scalar that is plain, or a literal block with a tag. -/
def decodeTyped {α : Type} (tagName : String) (value? : String → Option α) : Node → Decoded α
  | .scalar _ tag style text =>
    if style = .plain ∨ (style = .literal ∧ tag = some tagName) then
      match value? text with
      | some a => .ok a
      | none => .error .malformed
    else .error .malformed
  | _ => .error .malformed

/-- The name in a tag that is not one of the common ones. -/
def localName? (tag : Option String) : Option String :=
  match tag.map String.toList with
  | some ('!' :: c :: cs) => some (String.ofList (c :: cs))
  | _ => none

/-- A word out of a table. -/
def decodeWord {α : Type} (words : List (String × α)) : Node → Decoded α
  | .scalar _ tag style text =>
    match localName? tag with
    | some name =>
      if style = .plain ∧ isNull text then lookUp words name else .error .malformed
    | none => lookUp words text
  | _ => .error .malformed

/-- The entries of a mapping under the texts of their keys. -/
def membersOf? (root : Node) : List (Node × Node) → Option (List (String × Node))
  | [] => some []
  | (key, value) :: entries =>
    match root.resolve key, membersOf? root entries with
    | .scalar _ _ _ text, some members => some ((text, value) :: members)
    | _, _ => none

/-- A record. -/
def decodeRecord {α : Type} (root : Node) (r : Record Node α) : Node → Decoded α
  | .scalar _ _ style text =>
    if style = .plain ∧ text = "" then r.ofMembers [] else .error .malformed
  | .mapping _ entries =>
    match membersOf? root entries with
    | some members => r.ofMembers members
    | none => .error .malformed
  | _ => .error .malformed

/-- How values are read from the nodes of a document. -/
def dialect (root : Node) : Dialect Node where
  nat node := decodeTyped "tag:yaml.org,2002:int" unsigned? (root.resolve node)
  bool node := decodeTyped "tag:yaml.org,2002:bool" truth? (root.resolve node)
  word words node := decodeWord words (root.resolve node)
  record r node := decodeRecord root r (root.resolve node)

end Yaml

/-- The configuration of a YAML text, if it is one. -/
def EngineConfig.ofYaml? (text : String) : Option EngineConfig :=
  match Yaml.read text with
  | none => none
  | some root => (EngineConfig.ofDocument (Yaml.dialect root) root).toOption

end Mandate
