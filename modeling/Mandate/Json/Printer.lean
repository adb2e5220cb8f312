import Mandate.Json.Token

/-!
# Writing JSON

A document is written without white space: the texts of its tokens, one after the other.

Main definitions:

* `Json.tokensThen`: the tokens of a document, followed by others.
* `Json.print`: its text.
-/

namespace Mandate
namespace Json

mutual

/-- The tokens of a document, then those of `rest`. -/
def tokensThen : Json → (rest : List Token) → List Token
  | .array items, rest => .opening .square :: itemsThen items rest
  | .object members, rest => .opening .curly :: membersThen members rest
  | .text s, rest => .text (some s) :: rest
  | .null, rest => .scalar .null :: rest
  | .bool b, rest => .scalar (.bool b) :: rest
  | .integer i, rest => .scalar (.integer i) :: rest
  | .real, rest => .scalar .real :: rest
  | .void, rest => .scalar .void :: rest

/-- The items of an array and its closing bracket, then `rest`. -/
def itemsThen : List Json → (rest : List Token) → List Token
  | [], rest => .closing .square :: rest
  | j :: items, rest => j.tokensThen (moreItemsThen items rest)

/-- What follows an item of an array, then `rest`. -/
def moreItemsThen : List Json → (rest : List Token) → List Token
  | [], rest => .closing .square :: rest
  | j :: items, rest => .comma :: j.tokensThen (moreItemsThen items rest)

/-- The members of an object and its closing bracket, then `rest`. -/
def membersThen : List (String × Json) → (rest : List Token) → List Token
  | [], rest => .closing .curly :: rest
  | (name, j) :: members, rest =>
    .text (some name) :: .colon :: j.tokensThen (moreMembersThen members rest)

/-- What follows a member of an object, then `rest`. -/
def moreMembersThen : List (String × Json) → (rest : List Token) → List Token
  | [], rest => .closing .curly :: rest
  | (name, j) :: members, rest =>
    .comma :: .text (some name) :: .colon :: j.tokensThen (moreMembersThen members rest)

end

/-- The tokens of a document. -/
def tokens (j : Json) : List Token :=
  j.tokensThen []

/-- The characters of a document. -/
def chars (j : Json) : List Char :=
  j.tokens.flatMap Token.chars

/-- The text of a document. -/
def print (j : Json) : String :=
  String.ofList j.chars

end Json
end Mandate
