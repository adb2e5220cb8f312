import Mandate.Yaml.Token

/-!
# YAML nodes

A document is a tree of nodes, read from tokens by recursive descent.  What may be left out where a
node is due, and what ends a collection, differs between blocks and brackets.

Main definitions:

* `Node`: scalars, sequences, mappings and aliases.
* `nodeUpTo?`: a node at the front of some tokens.
* `Node.resolve`: the node that an alias stands for.
* `Yaml.read`: the root of the document of a text.
-/

namespace Mandate
namespace Yaml

/-- A node of a document.  Anchors and aliases are numbered. -/
inductive Node
  | alias (number : Nat)
  | scalar (anchor : Option Nat) (tag : Option String) (style : Style) (text : String)
  | sequence (anchor : Option Nat) (items : List Node)
  | mapping (anchor : Option Nat) (entries : List (Node × Node))

/-- The node that stands where none is written. -/
def Node.empty : Node :=
  .scalar none none .plain ""

/-! ## Tokens in front of nodes -/

/-- The anchor and the tag in front of a node, in either order, and what follows. -/
def properties : List Token → Option Nat × Option String × List Token
  | .anchor n :: .tag t :: rest => (some n, some t, rest)
  | .tag t :: .anchor n :: rest => (some n, some t, rest)
  | .anchor n :: rest => (some n, none, rest)
  | .tag t :: rest => (none, some t, rest)
  | rest => (none, none, rest)

/-- An anchor or a tag alone makes a node. -/
def bareNode? (anchor : Option Nat) (tag : Option String) (tokens : List Token) :
    Option (Node × List Token) :=
  if anchor.isSome || tag.isSome then some (.scalar anchor tag .plain "", tokens) else none

/-- The tokens that end an item of a block sequence. -/
def itemEnds : List Token :=
  [.dash, .blockEnd]

/-- The tokens that end an item of a sequence that is no further right than its key. -/
def flatItemEnds : List Token :=
  [.dash, .key, .value, .blockEnd]

/-- The tokens that end a key or a value of a block mapping. -/
def entryEnds : List Token :=
  [.key, .value, .blockEnd]

/-! ## Nodes -/

/-- Where a node stands. -/
inductive Position
  /-- Between brackets. -/
  | flow
  /-- In a block. -/
  | block
  /-- In a block mapping, where a sequence need not be indented. -/
  | entry
  deriving DecidableEq

mutual

/-- A node at the front, within `bound` steps. -/
def nodeUpTo? : (bound : Nat) → Position → List Token → Option (Node × List Token)
  | 0, _, _ => none
  | bound + 1, position, tokens =>
    match tokens with
    | .alias number :: rest => some (.alias number, rest)
    | tokens =>
      let (anchor, tag, tokens) := properties tokens
      match position, tokens with
      | .entry, .dash :: _ =>
        (flatItemsUpTo? bound tokens).map fun (items, rest) => (.sequence anchor items, rest)
      | _, .scalar style text :: rest =>
        some (.scalar anchor tag style text, rest)
      | _, .openSequence :: rest =>
        (flowItemsUpTo? bound rest).map fun (items, rest) => (.sequence anchor items, rest)
      | _, .openMapping :: rest =>
        (flowEntriesUpTo? bound rest).map fun (entries, rest) => (.mapping anchor entries, rest)
      | .flow, tokens => bareNode? anchor tag tokens
      | _, .blockSequence :: rest =>
        (itemsUpTo? bound rest).map fun (items, rest) => (.sequence anchor items, rest)
      | _, .blockMapping :: rest =>
        (entriesUpTo? bound rest).map fun (entries, rest) => (.mapping anchor entries, rest)
      | _, tokens => bareNode? anchor tag tokens

/-- A node, or the empty one in front of the tokens that end it. -/
def nodeOrEmptyUpTo? : (bound : Nat) → Position → (ends : List Token) → List Token →
    Option (Node × List Token)
  | 0, _, _, _ => none
  | bound + 1, position, ends, tokens =>
    match tokens with
    | [] => none
    | token :: _ =>
      if token ∈ ends then some (.empty, tokens) else nodeUpTo? bound position tokens

/-- The items of a block sequence. -/
def itemsUpTo? : (bound : Nat) → List Token → Option (List Node × List Token)
  | 0, _ => none
  | bound + 1, .dash :: tokens =>
    match nodeOrEmptyUpTo? bound .block itemEnds tokens with
    | none => none
    | some (item, tokens) =>
      (itemsUpTo? bound tokens).map fun (items, rest) => (item :: items, rest)
  | _ + 1, .blockEnd :: rest => some ([], rest)
  | _ + 1, _ => none

/-- The items of a sequence that is no further right than its key. -/
def flatItemsUpTo? : (bound : Nat) → List Token → Option (List Node × List Token)
  | 0, _ => none
  | bound + 1, .dash :: tokens =>
    match nodeOrEmptyUpTo? bound .block flatItemEnds tokens with
    | none => none
    | some (item, tokens) =>
      (flatItemsUpTo? bound tokens).map fun (items, rest) => (item :: items, rest)
  | _ + 1, rest => some ([], rest)

/-- The entries of a block mapping. -/
def entriesUpTo? : (bound : Nat) → List Token → Option (List (Node × Node) × List Token)
  | 0, _ => none
  | bound + 1, .key :: tokens =>
    match nodeOrEmptyUpTo? bound .entry entryEnds tokens with
    | none => none
    | some (key, tokens) =>
      match valueUpTo? bound .entry entryEnds tokens with
      | none => none
      | some (value, tokens) =>
        (entriesUpTo? bound tokens).map fun (entries, rest) => ((key, value) :: entries, rest)
  | _ + 1, .blockEnd :: rest => some ([], rest)
  | _ + 1, _ => none

/-- The value behind a key; without its colon it is empty. -/
def valueUpTo? : (bound : Nat) → Position → (ends : List Token) → List Token →
    Option (Node × List Token)
  | 0, _, _, _ => none
  | bound + 1, position, ends, .value :: tokens => nodeOrEmptyUpTo? bound position ends tokens
  | _ + 1, _, _, tokens => some (.empty, tokens)

/-- The items between square brackets, behind the opening one or a comma.  An entry stands for a
mapping of its own. -/
def flowItemsUpTo? : (bound : Nat) → List Token → Option (List Node × List Token)
  | 0, _ => none
  | _ + 1, .closeSequence :: rest => some ([], rest)
  | bound + 1, tokens =>
    let item? : Option (Node × List Token) :=
      match tokens with
      | .key :: tokens => pairUpTo? bound tokens
      | tokens => nodeUpTo? bound .flow tokens
    match item? with
    | some (item, .comma :: tokens) =>
      (flowItemsUpTo? bound tokens).map fun (items, rest) => (item :: items, rest)
    | some (item, .closeSequence :: rest) => some ([item], rest)
    | _ => none

/-- An entry between square brackets, as a mapping.  Where its key is empty, the token behind the
question mark is lost. -/
def pairUpTo? : (bound : Nat) → List Token → Option (Node × List Token)
  | 0, _ => none
  | bound + 1, tokens =>
    let ends := [Token.comma, .closeSequence]
    let key? : Option (Node × List Token) :=
      match tokens with
      | [] => none
      | token :: rest =>
        if token ∈ .value :: ends then some (.empty, rest) else nodeUpTo? bound .flow tokens
    match key? with
    | none => none
    | some (key, tokens) =>
      (valueUpTo? bound .flow ends tokens).map fun (value, rest) =>
        (.mapping none [(key, value)], rest)

/-- The entries between braces, behind the opening one or a comma. -/
def flowEntriesUpTo? : (bound : Nat) → List Token → Option (List (Node × Node) × List Token)
  | 0, _ => none
  | _ + 1, .closeMapping :: rest => some ([], rest)
  | bound + 1, tokens =>
    let ends := [Token.comma, .closeMapping]
    let entry? : Option ((Node × Node) × List Token) :=
      match tokens with
      | .key :: tokens =>
        match nodeOrEmptyUpTo? bound .flow (.value :: ends) tokens with
        | none => none
        | some (key, tokens) =>
          (valueUpTo? bound .flow ends tokens).map fun (value, rest) => ((key, value), rest)
      | tokens => (nodeUpTo? bound .flow tokens).map fun (key, rest) => ((key, .empty), rest)
    match entry? with
    | some (entry, .comma :: tokens) =>
      (flowEntriesUpTo? bound tokens).map fun (entries, rest) => (entry :: entries, rest)
    | some (entry, .closeMapping :: rest) => some ([entry], rest)
    | _ => none

end

/-! ## Aliases -/

mutual

/-- The last node that has the anchor of a number, from the front to the end of a node, or `found`
if there is none. -/
def Node.lastAnchored (number : Nat) (found : Option Node) : Node → Option Node
  | .alias _ => found
  | .scalar anchor tag style text =>
    if anchor = some number then some (.scalar anchor tag style text) else found
  | .sequence anchor items =>
    lastAmongItems number
      (if anchor = some number then some (.sequence anchor items) else found) items
  | .mapping anchor entries =>
    lastAmongEntries number
      (if anchor = some number then some (.mapping anchor entries) else found) entries

/-- The last node that has the anchor of a number among some items. -/
def lastAmongItems (number : Nat) (found : Option Node) : List Node → Option Node
  | [] => found
  | node :: rest => lastAmongItems number (node.lastAnchored number found) rest

/-- The last node that has the anchor of a number among some entries. -/
def lastAmongEntries (number : Nat) (found : Option Node) : List (Node × Node) → Option Node
  | [] => found
  | (key, value) :: rest =>
    lastAmongEntries number (value.lastAnchored number (key.lastAnchored number found)) rest

end

/-- The node that stands for a node of a document.  For an alias it is the last one that has its
anchor. -/
def Node.resolve (root : Node) : Node → Node
  | .alias number => (root.lastAnchored number none).getD .empty
  | node => node

/-! ## Documents -/

/-- The root of a document behind its mark, in front of which directives may stand. -/
def markedRoot? (bound : Nat) (tokens : List Token) : Option (Node × List Token) :=
  match tokens.dropWhile (· == .directive) with
  | [.documentStart] => some (.empty, [])
  | .documentStart :: rest =>
    nodeOrEmptyUpTo? bound .block [.directive, .documentStart, .documentEnd] rest
  | _ => none

/-- The root of the only document in some tokens.  No tokens make an empty one, and nothing but
marks may follow a document. -/
def ofTokens? (tokens : List Token) : Option Node :=
  let bound := 3 * tokens.length + 3
  let root? : Option (Node × List Token) :=
    match tokens with
    | [] => some (.empty, [])
    | .directive :: _ => markedRoot? bound tokens
    | .documentStart :: _ => markedRoot? bound tokens
    | tokens => nodeUpTo? bound .block tokens
  match root? with
  | some (root, rest) => if rest.all (· == .documentEnd) then some root else none
  | none => none

/-- The root of the document of a text. -/
def read (text : String) : Option Node :=
  (tokens? text).bind ofTokens?

end Yaml
end Mandate
