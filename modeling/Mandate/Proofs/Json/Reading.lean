import Mandate.Json.Reader
import Mandate.Proofs.Json.Scanning

/-!
# Reading what is written

The text of a document is read as the document itself, however deep it is and whatever characters
its texts and names have, if its integers are of those that documents keep.

Main results:

- Definition `Exact`: all integers of the document fit 64 bits.
- Theorem `legible_tokensThen`: the tokens of such a document can be told apart.
- Theorem `run_tokensThen`: the tokens of a document lead from where a value is due to where it is
  complete.
- Theorem `read_print`: the text of a document is read as that document.
-/

namespace Mandate
namespace Json

mutual

/-- All integers of the document fit 64 bits. -/
def Exact : Json → Prop
  | .integer i => fits i = true
  | .array items => ItemsExact items
  | .object members => MembersExact members
  | _ => True

/-- All integers of the items fit 64 bits. -/
def ItemsExact : List Json → Prop
  | [] => True
  | j :: rest => j.Exact ∧ ItemsExact rest

/-- All integers of the members fit 64 bits. -/
def MembersExact : List (String × Json) → Prop
  | [] => True
  | (_, j) :: rest => j.Exact ∧ MembersExact rest

end

/-! ## Tokens of a document -/

/-- What follows an item is no scalar. -/
theorem head_moreItemsThen (items : List Json) (rest : List Token) :
    ∀ t ∈ (moreItemsThen items rest).head?, t.isScalar = false := by
  intro t ht
  cases items <;>
  · simp only [moreItemsThen, List.head?_cons, Option.mem_some_iff] at ht
    rw [← ht]
    rfl

/-- What follows a member is no scalar. -/
theorem head_moreMembersThen (members : List (String × Json)) (rest : List Token) :
    ∀ t ∈ (moreMembersThen members rest).head?, t.isScalar = false := by
  intro t ht
  cases members <;>
  · simp only [moreMembersThen, List.head?_cons, Option.mem_some_iff] at ht
    rw [← ht]
    rfl

theorem legible_cons {t : Token} {ts : List Token} (ht : t.Exact) (hscalar : t.isScalar = false)
    (hts : Legible ts) : Legible (t :: ts) := by
  refine ⟨ht, ?_, hts⟩
  simp [hscalar]

mutual

/-- The tokens of a document can be told apart, also from what follows, unless that is a scalar. -/
theorem legible_tokensThen (j : Json) (h : j.Exact) (rest : List Token) (hrest : Legible rest)
    (hhead : ∀ t ∈ rest.head?, t.isScalar = false) : Legible (j.tokensThen rest) := by
  cases j with
  | null => exact ⟨trivial, fun _ => hhead, hrest⟩
  | bool b => exact ⟨trivial, fun _ => hhead, hrest⟩
  | integer i => exact ⟨h, fun _ => hhead, hrest⟩
  | real => exact ⟨trivial, fun _ => hhead, hrest⟩
  | void => exact ⟨trivial, fun _ => hhead, hrest⟩
  | text s => exact legible_cons (Option.some_ne_none s) rfl hrest
  | array items => exact legible_cons trivial rfl (legible_itemsThen items h rest hrest)
  | object members => exact legible_cons trivial rfl (legible_membersThen members h rest hrest)

theorem legible_itemsThen (items : List Json) (h : ItemsExact items) (rest : List Token)
    (hrest : Legible rest) : Legible (itemsThen items rest) := by
  cases items with
  | nil => exact legible_cons trivial rfl hrest
  | cons j items =>
    exact legible_tokensThen j h.1 _ (legible_moreItemsThen items h.2 rest hrest)
      (head_moreItemsThen items rest)

theorem legible_moreItemsThen (items : List Json) (h : ItemsExact items) (rest : List Token)
    (hrest : Legible rest) : Legible (moreItemsThen items rest) := by
  cases items with
  | nil => exact legible_cons trivial rfl hrest
  | cons j items =>
    exact legible_cons trivial rfl
      (legible_tokensThen j h.1 _ (legible_moreItemsThen items h.2 rest hrest)
        (head_moreItemsThen items rest))

theorem legible_membersThen (members : List (String × Json)) (h : MembersExact members)
    (rest : List Token) (hrest : Legible rest) : Legible (membersThen members rest) := by
  cases members with
  | nil => exact legible_cons trivial rfl hrest
  | cons member members =>
    exact legible_cons (Option.some_ne_none member.1) rfl (legible_cons trivial rfl
      (legible_tokensThen member.2 h.1 _ (legible_moreMembersThen members h.2 rest hrest)
        (head_moreMembersThen members rest)))

theorem legible_moreMembersThen (members : List (String × Json)) (h : MembersExact members)
    (rest : List Token) (hrest : Legible rest) : Legible (moreMembersThen members rest) := by
  cases members with
  | nil => exact legible_cons trivial rfl hrest
  | cons member members =>
    exact legible_cons trivial rfl (legible_cons (Option.some_ne_none member.1) rfl
      (legible_cons trivial rfl
        (legible_tokensThen member.2 h.1 _ (legible_moreMembersThen members h.2 rest hrest)
          (head_moreMembersThen members rest))))

end

/-! ## The machine -/

namespace Reading

/-- A member whose name denotes something. -/
def named (member : String × Json) : Option String × Json :=
  (some member.1, member.2)

/-- Members that all have names make up an object. -/
theorem ofMembers_named (before members : List (String × Json)) :
    ofMembers (before.map named) members = .object (before.reverse ++ members) := by
  induction before generalizing members with
  | nil => rfl
  | cons member before ih =>
    rw [List.map_cons, named, ofMembers, ih, List.reverse_cons, List.append_assoc]
    rfl

mutual

/-- The tokens of a document lead from where a value is due to where it is complete. -/
theorem run_tokensThen (j : Json) (stack : List Frame) (mayClose : Bool) (rest : List Token) :
    run (.value stack mayClose) (j.tokensThen rest) = run (.done j stack) rest := by
  cases j with
  | null => rfl
  | bool b => rfl
  | integer i => rfl
  | real => rfl
  | void => rfl
  | text s => rfl
  | array items =>
    cases items with
    | nil => rfl
    | cons j items =>
      calc
        _ = run (.value (.array [] :: stack) true) (j.tokensThen (moreItemsThen items rest)) := rfl
        _ = run (.done j (.array [] :: stack)) (moreItemsThen items rest) := run_tokensThen j _ _ _
        _ = run (.done (.array (j :: items)) stack) rest := run_moreItemsThen items j [] stack rest
  | object members =>
    cases members with
    | nil => rfl
    | cons member members =>
      calc
        _ = run (.value (.object [] (some member.1) :: stack) false)
              (member.2.tokensThen (moreMembersThen members rest)) := rfl
        _ = run (.done member.2 (.object [] (some member.1) :: stack))
              (moreMembersThen members rest) := run_tokensThen member.2 _ _ _
        _ = run (.done (.object (member :: members)) stack) rest :=
              run_moreMembersThen members member [] stack rest

/-- Behind an item, the other items and the closing bracket complete the array. -/
theorem run_moreItemsThen (items : List Json) (j : Json) (before : List Json)
    (stack : List Frame) (rest : List Token) :
    run (.done j (.array before :: stack)) (moreItemsThen items rest) =
      run (.done (.array ((j :: before).reverse ++ items)) stack) rest := by
  cases items with
  | nil =>
    rw [List.append_nil]
    rfl
  | cons k items =>
    calc
      _ = run (.value (.array (j :: before) :: stack) false)
            (k.tokensThen (moreItemsThen items rest)) := rfl
      _ = run (.done k (.array (j :: before) :: stack)) (moreItemsThen items rest) :=
            run_tokensThen k _ _ _
      _ = run (.done (.array ((k :: j :: before).reverse ++ items)) stack) rest :=
            run_moreItemsThen items k (j :: before) stack rest
      _ = _ := by simp

/-- Behind a member, the other members and the closing bracket complete the object. -/
theorem run_moreMembersThen (members : List (String × Json)) (member : String × Json)
    (before : List (String × Json)) (stack : List Frame) (rest : List Token) :
    run (.done member.2 (.object (before.map named) (some member.1) :: stack))
        (moreMembersThen members rest) =
      run (.done (.object ((member :: before).reverse ++ members)) stack) rest := by
  cases members with
  | nil =>
    calc
      _ = run (.done (ofMembers ((member :: before).map named) []) stack) rest := rfl
      _ = _ := by rw [ofMembers_named]
  | cons next members =>
    calc
      _ = run (.value (.object ((member :: before).map named) (some next.1) :: stack) false)
            (next.2.tokensThen (moreMembersThen members rest)) := rfl
      _ = run (.done next.2 (.object ((member :: before).map named) (some next.1) :: stack))
            (moreMembersThen members rest) := run_tokensThen next.2 _ _ _
      _ = run (.done (.object ((next :: member :: before).reverse ++ members)) stack) rest :=
            run_moreMembersThen members next (member :: before) stack rest
      _ = _ := by simp

end

end Reading

/-- The text of a document is read as the document. -/
theorem read_print {j : Json} (h : j.Exact) : read j.print = some j := by
  have hlegible : Legible j.tokens := legible_tokensThen j h [] trivial (by simp)
  have hrun : Reading.run (.value [] false) j.tokens = some (.done j []) :=
    Reading.run_tokensThen j [] false []
  rw [read, print, String.toList_ofList, chars, Token.scan_chars hlegible, Option.bind_some,
    ofTokens, hrun]
  rfl

end Json
end Mandate
