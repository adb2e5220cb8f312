import Mandate.Toml.Quoted
import Mandate.Toml.Word

/-!
# TOML documents

A document is read line by line: a line is empty, holds the header of a table, or adds a value to
the table that is open.  A value may be an array, which may run over lines, or a table between
braces, which may not.

Main definitions:

* `value?`: a value at the front.
* `Toml.read`: the members of a document.
-/

namespace Mandate
namespace Toml

/-! ## Gaps -/

/-- The text without the white space, line feeds and comments at its front. -/
def skipGap : (comment : Bool) → List Char → List Char
  | _, [] => []
  | comment, c :: rest =>
    if c = '\n' then skipGap false rest
    else if comment && !isControl c then skipGap true rest
    else if isBlank c then skipGap comment rest
    else if c = '#' then skipGap true rest
    else c :: rest

/-- What follows the end of the line, in front of which a comment may stand. -/
def endLine? (cs : List Char) : Option (List Char) :=
  let cs :=
    match skipBlanks cs with
    | '#' :: comment => comment.dropWhile (!isControl ·)
    | cs => cs
  match cs with
  | [] => some []
  | '\n' :: rest => some rest
  | _ => none

/-! ## Values -/

/-- Arrays and tables between braces may lie this deep in each other. -/
def depthLimit : Nat := 79

mutual

/-- A value at the front, within `bound` steps.  `depth` arrays and tables may lie in each other. -/
def valueUpTo? : (bound depth : Nat) → List Char → Option (Value × List Char)
  | 0, _, _ => none
  | _ + 1, _, [] => none
  | bound + 1, depth, c :: rest =>
    if isQuote c then (text? c rest).map fun (s, rest) => (.text s, rest)
    else if c = '[' then
      match depth with
      | 0 => none
      | depth + 1 =>
        (itemsUpTo? bound depth rest).map fun (items, rest) => (.array items, rest)
    else if c = '\x7b' then
      match depth with
      | 0 => none
      | depth + 1 =>
        match skipBlanks rest with
        | '\x7d' :: rest => some (.table .braces [], rest)
        | rest =>
          (membersUpTo? bound depth [] rest).map fun (members, rest) =>
            (.table .braces members, rest)
    else
      let (word, rest) := takeWord (c :: rest)
      (word? word).map (·, rest)

/-- The items of an array up to its closing bracket.  A comma may stand behind the last one. -/
def itemsUpTo? : (bound depth : Nat) → List Char → Option (List Value × List Char)
  | 0, _, _ => none
  | bound + 1, depth, cs =>
    match skipGap false cs with
    | ']' :: rest => some ([], rest)
    | cs =>
      match valueUpTo? bound depth cs with
      | none => none
      | some (v, rest) =>
        match skipGap false rest with
        | ',' :: rest => (itemsUpTo? bound depth rest).map fun (vs, rest) => (v :: vs, rest)
        | ']' :: rest => some ([v], rest)
        | _ => none

/-- The members of a table up to its closing brace. -/
def membersUpTo? : (bound depth : Nat) → Members → List Char → Option (Members × List Char)
  | 0, _, _, _ => none
  | bound + 1, depth, members, cs =>
    match key? cs with
    | some (path, last, '=' :: rest) =>
      match valueUpTo? bound depth (skipBlanks rest) with
      | none => none
      | some (v, rest) =>
        match insert? path last v .braces members, skipBlanks rest with
        | some members, ',' :: rest => membersUpTo? bound depth members rest
        | some members, '\x7d' :: rest => some (members, rest)
        | _, _ => none
    | _ => none

end

/-- A value at the front. -/
def value? (cs : List Char) : Option (Value × List Char) :=
  valueUpTo? (cs.length + 1) depthLimit cs

/-! ## Lines -/

/-- The tables so far, and the path of the table that is open. -/
structure State where
  members : Members
  current : List String

/-- Reads a header behind its opening bracket. -/
def header? (state : State) (cs : List Char) : Option (State × List Char) :=
  match key? cs with
  | some (path, last, ']' :: rest) => do
    let members ← openTable? path last state.members
    pure (⟨members, path ++ [last]⟩, ← endLine? rest)
  | _ => none

/-- Reads a header in double brackets behind them. -/
def doubleHeader? (state : State) (cs : List Char) : Option (State × List Char) :=
  match key? cs with
  | some (path, last, ']' :: ']' :: rest) => do
    let members ← openTables? path last state.members
    pure (⟨members, path ++ [last]⟩, ← endLine? rest)
  | _ => none

/-- Reads an entry of the table that is open. -/
def entry? (state : State) (cs : List Char) : Option (State × List Char) :=
  match key? cs with
  | some (path, last, '=' :: rest) => do
    let (v, rest) ← value? (skipBlanks rest)
    let members ← insertUnder? state.current path last v state.members
    pure (⟨members, state.current⟩, ← endLine? rest)
  | _ => none

/-- Reads a line, and what belongs to it of the next ones. -/
def line? (state : State) (cs : List Char) : Option (State × List Char) :=
  match skipBlanks cs with
  | [] => some (state, [])
  | '\n' :: rest => some (state, rest)
  | '#' :: rest => (endLine? ('#' :: rest)).map (state, ·)
  | '[' :: '[' :: rest => doubleHeader? state rest
  | '[' :: rest => header? state rest
  | cs => entry? state cs

/-- Reads all lines, at most `bound` of them. -/
def linesUpTo? : (bound : Nat) → State → List Char → Option State
  | _, state, [] => some state
  | 0, _, _ => none
  | bound + 1, state, cs =>
    match line? state cs with
    | some (state, rest) => linesUpTo? bound state rest
    | none => none

/-- The text without the carriage returns in front of line feeds. -/
def plainBreaks : List Char → List Char
  | [] => []
  | '\r' :: '\n' :: rest => '\n' :: plainBreaks rest
  | c :: rest => c :: plainBreaks rest

/-- The text behind a byte order mark. -/
def dropMark : List Char → List Char
  | '\ufeff' :: rest => rest
  | cs => cs

/-- The members of the document of a text. -/
def read (text : String) : Option Members :=
  let cs := plainBreaks (dropMark text.toList)
  (linesUpTo? (cs.length + 1) ⟨[], []⟩ cs).map State.members

end Toml
end Mandate
