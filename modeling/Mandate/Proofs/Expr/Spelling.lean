import Mandate.Expr.Identity
import Mandate.Proofs.Expr.RoundTrip
import Mandate.Proofs.Json.Spelling
import Mandate.Validation

/-!
# Constraints in other spellings

A constraint may be written in many ways.  At every node the members may stand in any order and
among foreign ones, or the node may be a list; a relation may be an object with `null`; a number may
be an integer, or a text with leading zeros and white space around it.  All documents that spell a
constraint are read as that constraint, unless they are too deep.

Main results:

- Definitions `Quantity.Spelling`, `Relation.Spelling`, `Term.Spelling`, `Predicate.Spelling`,
  `Formula.Spelling`, `Constraint.Spelling`: the documents that spell something.
- Theorems `Term.ofJsonWithin_of_spelling`, `Predicate.ofJsonWithin_of_spelling`,
  `Formula.ofJsonWithin_of_spelling`: what is read from them.
- Theorem `Constraint.spelling_toJson`: the document that is written is one of them.
- Theorem `Constraint.ofText_of_spelling`: all texts of such documents are read as the constraint,
  so they have its identity and are as admissible as it is.
-/

namespace Mandate

open Decode

/-! ## Spellings -/

/-- A quantity is spelled as an integer if it has at most 64 bits, or as a text of decimal digits,
with any number of leading zeros and with white space around it. -/
inductive Quantity.Spelling (q : Quantity) : Json → Prop
  | integer (h : q.toNat < 0x10000000000000000) : Spelling q (.integer q.toNat)
  | text (front back : List Char) (zeros : Nat) (hfront : ∀ c ∈ front, Text.isBlank c = true)
      (hback : ∀ c ∈ back, Text.isBlank c = true) :
      Spelling q (.text (String.ofList
        (front ++ (List.replicate zeros '0' ++ Decimal.ofNat q.toNat) ++ back)))

/-- A relation is spelled as its word, alone or as the name of `null`. -/
inductive Relation.Spelling (op : Relation) : Json → Prop
  | word : Spelling op (.text op.word)
  | object : Spelling op (.object [(op.word, .null)])

/-- The documents that spell a term. -/
inductive Term.Spelling : Term → Json → Prop
  | literal {q : Quantity} {x j : Json} (hx : q.Spelling x)
      (hj : Tagged "UIntLiteral" [("value", x)] j) : Spelling (.literal q) j
  | blockNumber {j : Json} (hj : Tagged "BlockNumber" [] j) : Spelling .blockNumber j
  | stakeOf {a : AccountId} {j : Json} (hj : Tagged "StakeOf" [("account", .text a.text)] j) :
      Spelling (.stakeOf a) j
  | add {l r : Term} {x y j : Json} (hl : Spelling l x) (hr : Spelling r y)
      (hj : Tagged "Add" [("left", x), ("right", y)] j) : Spelling (.add l r) j
  | sub {l r : Term} {x y j : Json} (hl : Spelling l x) (hr : Spelling r y)
      (hj : Tagged "Sub" [("left", x), ("right", y)] j) : Spelling (.sub l r) j
  | weightSet {s t : AccountId} {j : Json}
      (hj : Tagged "WeightSet" [("from", .text s.text), ("to", .text t.text)] j) :
      Spelling (.weightSet s t) j
  | weightPower {s t : AccountId} {j : Json}
      (hj : Tagged "WeightPowerFrom" [("from", .text s.text), ("to", .text t.text)] j) :
      Spelling (.weightPower s t) j

/-- The documents that spell a predicate. -/
inductive Predicate.Spelling : Predicate → Json → Prop
  | maxDelegationDepth {d : Term} {x j : Json} (hd : d.Spelling x)
      (hj : Tagged "MaxDelegationDepth" [("depth", x)] j) : Spelling (.maxDelegationDepth d) j
  | permissionExists {p : PermId} {j : Json}
      (hj : Tagged "PermissionExists" [("pid", .text p.text)] j) : Spelling (.permissionExists p) j
  | permissionEnabled {p : PermId} {j : Json}
      (hj : Tagged "PermissionEnabled" [("pid", .text p.text)] j) :
      Spelling (.permissionEnabled p) j
  | rateLimit {m p : Term} {x y j : Json} (hm : m.Spelling x) (hp : p.Spelling y)
      (hj : Tagged "RateLimit" [("maxOperations", x), ("period", y)] j) :
      Spelling (.rateLimit m p) j
  | inactiveUnlessRedelegated {j : Json} (hj : Tagged "InactiveUnlessRedelegated" [] j) :
      Spelling .inactiveUnlessRedelegated j

/-- The documents that spell a formula. -/
inductive Formula.Spelling : Formula → Json → Prop
  | not {f : Formula} {x j : Json} (hf : Spelling f x) (hj : Tagged "Not" [("body", x)] j) :
      Spelling (.not f) j
  | and {l r : Formula} {x y j : Json} (hl : Spelling l x) (hr : Spelling r y)
      (hj : Tagged "And" [("left", x), ("right", y)] j) : Spelling (.and l r) j
  | or {l r : Formula} {x y j : Json} (hl : Spelling l x) (hr : Spelling r y)
      (hj : Tagged "Or" [("left", x), ("right", y)] j) : Spelling (.or l r) j
  | compare {op : Relation} {l r : Term} {o x y j : Json} (ho : op.Spelling o) (hl : l.Spelling x)
      (hr : r.Spelling y) (hj : Tagged "CompExpr" [("op", o), ("left", x), ("right", y)] j) :
      Spelling (.compare op l r) j
  | base {p : Predicate} {x j : Json} (hp : p.Spelling x) (hj : Tagged "Base" [("body", x)] j) :
      Spelling (.base p) j

/-- The documents that spell a constraint: objects with its permission and its formula. -/
def Constraint.Spelling (c : Constraint) (j : Json) : Prop :=
  ∃ body members, c.body.Spelling body ∧ j = .object members ∧
    Scatters [("permId", .text c.permission.text), ("body", body)] members

/-! ## Numbers and relations -/

/-- A quantity is read from each of its spellings. -/
theorem decodeQuantity_of_spelling {q : Quantity} {j : Json} (h : q.Spelling j) :
    decodeQuantity j = .ok q := by
  cases h with
  | integer _ => simp [decodeQuantity, quantityOfInt]
  | @text front back zeros hfront hback =>
    have hdigits : ∀ c ∈ List.replicate zeros '0' ++ Decimal.ofNat q.toNat,
        Text.isBlank c = false := by
      intro c hc
      rcases List.mem_append.1 hc with hzero | hdigit
      · rw [List.eq_of_mem_replicate hzero]
        decide
      · exact Text.isBlank_of_isDigit (Decimal.isDigit_of_mem_ofNat hdigit)
    rw [decodeQuantity, quantityOfText, String.toList_ofList,
      Text.trimBlanks_pad hfront hback hdigits, Decimal.toNat?_zeros]
    dsimp only
    rw [Quantity.ofNat?_toNat]

theorem Quantity.Spelling.clean {q : Quantity} {j : Json} (h : q.Spelling j) : j.Clean := by
  cases h with
  | integer hlt =>
    refine ⟨?_, rfl⟩
    simp only [Json.Exact, Json.fits, Bool.and_eq_true, decide_eq_true_eq]
    omega
  | text _ _ _ => exact Json.clean_text _

/-- A relation is read from each of its spellings. -/
theorem Relation.ofInnerJson_of_spelling {op : Relation} {j : Json} (h : op.Spelling j) :
    Relation.ofInnerJson j = .ok op := by
  cases h <;> cases op <;> rfl

theorem Relation.Spelling.clean {op : Relation} {j : Json} (h : op.Spelling j) : j.Clean := by
  cases h with
  | word => exact Json.clean_text _
  | object => exact Json.clean_object (by simp [Json.clean_null])

/-- Two operands are read from content that has them. -/
theorem operands_of_offers {α : Type} {decode : Json → Decoded α} {x y : Json} {a b : α}
    {content : Content} (h : content.Offers [("left", x), ("right", y)]) (hx : decode x = .ok a)
    (hy : decode y = .ok b) :
    content.as (Record.two false (.required "left" decode) (.required "right" decode)) =
      .ok (a, b) := by
  have hname : "right" ≠ "left" := by decide
  exact Content.Offers.two h hname hx hy

/-- Two accounts are read from content that has them. -/
theorem accounts_of_offers {content : Content} {s t : AccountId}
    (h : content.Offers [("from", .text s.text), ("to", .text t.text)]) :
    content.as (Record.two false (.required "from" AccountId.ofJson)
      (.required "to" AccountId.ofJson)) = .ok (s, t) := by
  have hname : "to" ≠ "from" := by decide
  exact Content.Offers.two h hname rfl rfl

/-! ## Terms -/

namespace Term

theorem Spelling.clean {t : Term} {j : Json} (h : t.Spelling j) : j.Clean := by
  induction h with
  | literal hx hj => exact hj.clean (by simp [hx.clean])
  | blockNumber hj => exact hj.clean (by simp)
  | stakeOf hj => exact hj.clean (by simp [Json.clean_text])
  | add _ _ hj hl hr => exact hj.clean (by simp [hl, hr])
  | sub _ _ hj hl hr => exact hj.clean (by simp [hl, hr])
  | weightSet hj => exact hj.clean (by simp [Json.clean_text])
  | weightPower hj => exact hj.clean (by simp [Json.clean_text])

/-- The document that is written for a term spells it. -/
theorem spelling_toJson (t : Term) : t.Spelling t.toJson := by
  induction t with
  | literal q =>
    have hq : q.Spelling (.text (String.ofList ([] ++ ([] ++ Decimal.ofNat q.toNat) ++ []))) :=
      .text [] [] 0 (by simp) (by simp)
    rw [List.nil_append, List.append_nil, List.nil_append] at hq
    exact .literal hq (tagged_object _ _)
  | blockNumber => exact .blockNumber (tagged_object _ _)
  | stakeOf a => exact .stakeOf (tagged_object _ _)
  | add l r hl hr => exact .add hl hr (tagged_object _ _)
  | sub l r hl hr => exact .sub hl hr (tagged_object _ _)
  | weightSet s t => exact .weightSet (tagged_object _ _)
  | weightPower s t => exact .weightPower (tagged_object _ _)

/-- A term is read from each of its spellings. -/
theorem ofJsonWithin_of_spelling {t : Term} {j : Json} (h : t.Spelling j) (inner : Bool)
    {height : Nat} (hheight : j.nesting < height) : ofJsonWithin inner height j = .ok t := by
  induction height generalizing inner t j with
  | zero => exact absurd hheight (Nat.not_lt_zero _)
  | succ height ih =>
    -- the fields lie deeper than the term, so they are read within one level less
    have hinside {tag : String} {fields : List (String × Json)} (hj : Tagged tag fields j)
        {f : String × Json} (hf : f ∈ fields) : f.2.nesting < height :=
      Nat.lt_of_lt_of_le (hj.nesting_lt hf) (Nat.le_of_lt_succ hheight)
    cases h with
    | literal hx hj =>
      rcases splitTag_of_tagged inner tags hj (by decide) (by simp [tagName]) with
        ⟨content, hsplit, hoffers⟩
      rw [ofJsonWithin, hsplit]
      exact Content.as_map (Content.Offers.one hoffers (decodeQuantity_of_spelling hx)) literal
    | blockNumber hj =>
      rcases splitTag_of_tagged inner tags hj (by decide) (by simp [tagName]) with
        ⟨content, hsplit, hoffers⟩
      rw [ofJsonWithin, hsplit]
      exact hoffers.zero _
    | stakeOf hj =>
      rcases splitTag_of_tagged inner tags hj (by decide) (by simp [tagName]) with
        ⟨content, hsplit, hoffers⟩
      rw [ofJsonWithin, hsplit]
      exact Content.as_map (Content.Offers.one hoffers rfl) stakeOf
    | add hl hr hj =>
      rcases splitTag_of_tagged inner tags hj (by decide) (by simp [tagName]) with
        ⟨content, hsplit, hoffers⟩
      rw [ofJsonWithin, hsplit]
      have hleft := ih hl true (hinside hj List.mem_cons_self)
      have hright := ih hr true (hinside hj (List.mem_cons_of_mem _ List.mem_cons_self))
      exact Content.as_map (operands_of_offers hoffers hleft hright) _
    | sub hl hr hj =>
      rcases splitTag_of_tagged inner tags hj (by decide) (by simp [tagName]) with
        ⟨content, hsplit, hoffers⟩
      rw [ofJsonWithin, hsplit]
      have hleft := ih hl true (hinside hj List.mem_cons_self)
      have hright := ih hr true (hinside hj (List.mem_cons_of_mem _ List.mem_cons_self))
      exact Content.as_map (operands_of_offers hoffers hleft hright) _
    | weightSet hj =>
      rcases splitTag_of_tagged inner tags hj (by decide) (by simp [tagName]) with
        ⟨content, hsplit, hoffers⟩
      rw [ofJsonWithin, hsplit]
      exact Content.as_map (accounts_of_offers hoffers) _
    | weightPower hj =>
      rcases splitTag_of_tagged inner tags hj (by decide) (by simp [tagName]) with
        ⟨content, hsplit, hoffers⟩
      rw [ofJsonWithin, hsplit]
      exact Content.as_map (accounts_of_offers hoffers) _

end Term

/-! ## Predicates -/

namespace Predicate

theorem Spelling.clean {p : Predicate} {j : Json} (h : p.Spelling j) : j.Clean := by
  cases h with
  | maxDelegationDepth hd hj => exact hj.clean (by simp [hd.clean])
  | permissionExists hj => exact hj.clean (by simp [Json.clean_text])
  | permissionEnabled hj => exact hj.clean (by simp [Json.clean_text])
  | rateLimit hm hp hj => exact hj.clean (by simp [hm.clean, hp.clean])
  | inactiveUnlessRedelegated hj => exact hj.clean (by simp)

/-- The document that is written for a predicate spells it. -/
theorem spelling_toJson (p : Predicate) : p.Spelling p.toJson := by
  cases p with
  | maxDelegationDepth d => exact .maxDelegationDepth d.spelling_toJson (tagged_object _ _)
  | permissionExists p => exact .permissionExists (tagged_object _ _)
  | permissionEnabled p => exact .permissionEnabled (tagged_object _ _)
  | rateLimit m p => exact .rateLimit m.spelling_toJson p.spelling_toJson (tagged_object _ _)
  | inactiveUnlessRedelegated => exact .inactiveUnlessRedelegated (tagged_object _ _)

/-- A predicate is read from each of its spellings. -/
theorem ofJsonWithin_of_spelling {p : Predicate} {j : Json} (h : p.Spelling j) (inner : Bool)
    {height : Nat} (hheight : j.nesting ≤ height) : ofJsonWithin inner height j = .ok p := by
  have hinside {tag : String} {fields : List (String × Json)} (hj : Tagged tag fields j)
      {f : String × Json} (hf : f ∈ fields) : f.2.nesting < height :=
    Nat.lt_of_lt_of_le (hj.nesting_lt hf) hheight
  cases h with
  | maxDelegationDepth hd hj =>
    rcases splitTag_of_tagged inner tags hj (by decide) (by simp [tagName]) with
      ⟨content, hsplit, hoffers⟩
    rw [ofJsonWithin, hsplit]
    have hlimit := Term.ofJsonWithin_of_spelling hd true (hinside hj List.mem_cons_self)
    exact Content.as_map (Content.Offers.one hoffers hlimit) _
  | permissionExists hj =>
    rcases splitTag_of_tagged inner tags hj (by decide) (by simp [tagName]) with
      ⟨content, hsplit, hoffers⟩
    rw [ofJsonWithin, hsplit]
    exact Content.as_map (Content.Offers.one hoffers rfl) _
  | permissionEnabled hj =>
    rcases splitTag_of_tagged inner tags hj (by decide) (by simp [tagName]) with
      ⟨content, hsplit, hoffers⟩
    rw [ofJsonWithin, hsplit]
    exact Content.as_map (Content.Offers.one hoffers rfl) _
  | rateLimit hm hp hj =>
    rcases splitTag_of_tagged inner tags hj (by decide) (by simp [tagName]) with
      ⟨content, hsplit, hoffers⟩
    rw [ofJsonWithin, hsplit]
    have hname : "period" ≠ "maxOperations" := by decide
    have hlimit := Term.ofJsonWithin_of_spelling hm true (hinside hj List.mem_cons_self)
    have hperiod := Term.ofJsonWithin_of_spelling hp true
      (hinside hj (List.mem_cons_of_mem _ List.mem_cons_self))
    exact Content.as_map (Content.Offers.two hoffers hname hlimit hperiod) _
  | inactiveUnlessRedelegated hj =>
    rcases splitTag_of_tagged inner tags hj (by decide) (by simp [tagName]) with
      ⟨content, hsplit, hoffers⟩
    rw [ofJsonWithin, hsplit]
    exact hoffers.zero _

end Predicate

/-! ## Formulas -/

namespace Formula

theorem Spelling.clean {f : Formula} {j : Json} (h : f.Spelling j) : j.Clean := by
  induction h with
  | not _ hj hf => exact hj.clean (by simp [hf])
  | and _ _ hj hl hr => exact hj.clean (by simp [hl, hr])
  | or _ _ hj hl hr => exact hj.clean (by simp [hl, hr])
  | compare ho hl hr hj => exact hj.clean (by simp [ho.clean, hl.clean, hr.clean])
  | base hp hj => exact hj.clean (by simp [hp.clean])

/-- The document that is written for a formula spells it. -/
theorem spelling_toJson (f : Formula) : f.Spelling f.toJson := by
  induction f with
  | not f hf => exact .not hf (tagged_object _ _)
  | and l r hl hr => exact .and hl hr (tagged_object _ _)
  | or l r hl hr => exact .or hl hr (tagged_object _ _)
  | compare op l r =>
    exact .compare .word l.spelling_toJson r.spelling_toJson (tagged_object _ _)
  | base p => exact .base p.spelling_toJson (tagged_object _ _)

/-- A formula is read from each of its spellings. -/
theorem ofJsonWithin_of_spelling {f : Formula} {j : Json} (h : f.Spelling j) (inner : Bool)
    {height : Nat} (hheight : j.nesting < height) : ofJsonWithin inner height j = .ok f := by
  induction height generalizing inner f j with
  | zero => exact absurd hheight (Nat.not_lt_zero _)
  | succ height ih =>
    have hinside {tag : String} {fields : List (String × Json)} (hj : Tagged tag fields j)
        {f : String × Json} (hf : f ∈ fields) : f.2.nesting < height :=
      Nat.lt_of_lt_of_le (hj.nesting_lt hf) (Nat.le_of_lt_succ hheight)
    cases h with
    | not hf hj =>
      rcases splitTag_of_tagged inner tags hj (by decide) (by simp [tagName]) with
        ⟨content, hsplit, hoffers⟩
      rw [ofJsonWithin, hsplit]
      have hbody := ih hf true (hinside hj List.mem_cons_self)
      exact Content.as_map (Content.Offers.one hoffers hbody) _
    | and hl hr hj =>
      rcases splitTag_of_tagged inner tags hj (by decide) (by simp [tagName]) with
        ⟨content, hsplit, hoffers⟩
      rw [ofJsonWithin, hsplit]
      have hleft := ih hl true (hinside hj List.mem_cons_self)
      have hright := ih hr true (hinside hj (List.mem_cons_of_mem _ List.mem_cons_self))
      exact Content.as_map (operands_of_offers hoffers hleft hright) _
    | or hl hr hj =>
      rcases splitTag_of_tagged inner tags hj (by decide) (by simp [tagName]) with
        ⟨content, hsplit, hoffers⟩
      rw [ofJsonWithin, hsplit]
      have hleft := ih hl true (hinside hj List.mem_cons_self)
      have hright := ih hr true (hinside hj (List.mem_cons_of_mem _ List.mem_cons_self))
      exact Content.as_map (operands_of_offers hoffers hleft hright) _
    | compare ho hl hr hj =>
      rcases splitTag_of_tagged inner tags hj (by decide) (by simp [tagName]) with
        ⟨content, hsplit, hoffers⟩
      rw [ofJsonWithin, hsplit]
      have hop := Relation.ofInnerJson_of_spelling ho
      have hleft := Term.ofJsonWithin_of_spelling hl true
        (hinside hj (List.mem_cons_of_mem _ List.mem_cons_self))
      have hright := Term.ofJsonWithin_of_spelling hr true
        (hinside hj (List.mem_cons_of_mem _ (List.mem_cons_of_mem _ List.mem_cons_self)))
      have hfirst : "left" ≠ "op" := by decide
      have hsecond : "right" ≠ "op" := by decide
      have hthird : "right" ≠ "left" := by decide
      exact Content.as_map
        (Content.Offers.three hoffers hfirst hsecond hthird hop hleft hright) _
    | base hp hj =>
      rcases splitTag_of_tagged inner tags hj (by decide) (by simp [tagName]) with
        ⟨content, hsplit, hoffers⟩
      rw [ofJsonWithin, hsplit]
      have hbody := Predicate.ofJsonWithin_of_spelling hp true
        (Nat.le_of_lt (hinside hj List.mem_cons_self))
      exact Content.as_map (Content.Offers.one hoffers hbody) _

/-- Inside other documents, a formula is read from each of its spellings that is not too deep
together with them. -/
theorem ofJsonAt_of_spelling {f : Formula} {j : Json} (h : f.Spelling j) {outer : Nat}
    (hnesting : outer + j.nesting ≤ nestingLimit) : ofJsonAt outer j = .ok f := by
  simp only [ofJsonAt, decodeBounded, h.clean.readable, hnesting, decide_true, Bool.and_self,
    if_true]
  exact ofJsonWithin_of_spelling h false (Nat.lt_succ_self _)

end Formula

/-! ## Constraints -/

namespace Constraint

theorem Spelling.clean {c : Constraint} {j : Json} (h : c.Spelling j) : j.Clean := by
  rcases h with ⟨body, members, hbody, rfl, hscatters⟩
  exact hscatters.clean (by simp [Json.clean_text, hbody.clean])

/-- The document that is written for a constraint spells it. -/
theorem spelling_toJson (c : Constraint) : c.Spelling c.toJson :=
  ⟨_, _, c.body.spelling_toJson, rfl, .refl _⟩

/-- A constraint is read from each of its spellings that is not too deep. -/
theorem ofJson_of_spelling {c : Constraint} {j : Json} (h : c.Spelling j)
    (hnesting : j.nesting ≤ nestingLimit) : ofJson j = .ok c := by
  rcases h with ⟨body, members, hbody, rfl, hscatters⟩
  have hpermission := hscatters.filter_eq (by simp) List.mem_cons_self
  have hformula := hscatters.filter_eq (by simp) (List.mem_cons_of_mem _ List.mem_cons_self)
  have hmember : body ∈ members.map Prod.snd :=
    List.mem_map_of_mem (hscatters.mem (List.mem_cons_of_mem _ List.mem_cons_self))
  have hinside : 1 + body.nesting ≤ nestingLimit := by
    have hle := nesting_le_of_mem_members hmember
    rw [Json.nesting] at hnesting
    omega
  have hname : "body" ≠ "permId" := by decide
  exact Record.map_ofMembers (Record.two_ofMembers_of_filter false hname hpermission hformula rfl
    (Formula.ofJsonAt_of_spelling hbody hinside)) _

/-- Every document that spells a constraint and is not too deep can be written as a text.  All texts
that are read as the document are read as the constraint: as the same one as its own text, so with
the same identity, and as admissible or not for the same reason. -/
theorem ofText_of_spelling {c : Constraint} {j : Json} (h : c.Spelling j)
    (hnesting : j.nesting ≤ nestingLimit) :
    Json.read j.print = some j ∧ ∀ text, Json.read text = some j →
      ofText text = .ok c ∧ ofText text = ofText c.canonicalText ∧
        (ofText text).map ConstraintId.derive = .ok (ConstraintId.derive c) ∧
        ∀ limits : Limits, limits.decode text = limits.accept c ∧
          limits.decode text = limits.decode c.canonicalText := by
  refine ⟨Json.read_print h.clean.exact, fun text hread => ?_⟩
  have htext : ofText text = .ok c := by
    rw [ofText, Decode.ofText, hread]
    exact ofJson_of_spelling h hnesting
  have hcanonical : ofText c.canonicalText = .ok c :=
    (ofText_canonicalText c).trans (if_pos (depth_le_of_ofText htext))
  refine ⟨htext, htext.trans hcanonical.symm, by rw [htext]; rfl, fun limits => ?_⟩
  constructor
  · rw [Limits.decode, htext]
  · rw [Limits.decode, Limits.decode, htext, hcanonical]

/-! ## One constraint in another spelling -/

/-- The constraint that five and seven are together more than the block number. -/
def sum : Constraint :=
  ⟨⟨"p"⟩, .compare .gt (.add (.literal ⟨5, by decide⟩) (.literal ⟨7, by decide⟩)) .blockNumber⟩

/-- A document for it, in which objects and lists take turns.  A foreign member has the name of a
field that other nodes have. -/
def sumDocument : Json :=
  .object [("note", .null),
    ("body", .array [.text "CompExpr", .object [("Gt", .null)],
      .object [("right", .object [("value", .text " 007\n"), ("$", .text "UIntLiteral")]),
        ("op", .null), ("$", .text "Add"), ("left", .array [.text "UIntLiteral", .integer 5])],
      .array [.text "BlockNumber"]]),
    ("permId", .text "p")]

/-- The text of the document. -/
def sumText : String :=
  "\x7b\"note\":null,\"body\":[\"CompExpr\",\x7b\"Gt\":null\x7d," ++
    "\x7b\"right\":\x7b\"value\":\" 007\\n\",\"$\":\"UIntLiteral\"\x7d,\"op\":null," ++
    "\"$\":\"Add\",\"left\":[\"UIntLiteral\",5]\x7d,[\"BlockNumber\"]],\"permId\":\"p\"\x7d"

theorem spelling_sumDocument : sum.Spelling sumDocument := by
  have hfive : Term.Spelling (.literal ⟨5, by decide⟩)
      (.array [.text "UIntLiteral", .integer 5]) := .literal (.integer (by decide)) .list
  have hseven : Term.Spelling (.literal ⟨7, by decide⟩)
      (.object [("value", .text " 007\n"), ("$", .text "UIntLiteral")]) := by
    have hblank (b : Char) (hb : Text.isBlank b = true) : ∀ c ∈ [b], Text.isBlank c = true :=
      fun c hc => (List.mem_singleton.1 hc).symm ▸ hb
    have hq : Quantity.Spelling ⟨7, by decide⟩ (.text " 007\n") :=
      .text [' '] ['\n'] 2 (hblank ' ' rfl) (hblank '\n' rfl)
    exact .literal hq (.object ⟨[], List.Perm.swap _ _ _, by simp⟩)
  have hadd : Term.Spelling (.add (.literal ⟨5, by decide⟩) (.literal ⟨7, by decide⟩)) (.object
      [("right", .object [("value", .text " 007\n"), ("$", .text "UIntLiteral")]), ("op", .null),
        ("$", .text "Add"), ("left", .array [.text "UIntLiteral", .integer 5])]) := by
    refine .add hfive hseven (.object ⟨[("op", .null)], ?_, by simp [tagName]⟩)
    have hturned (a b c d : String × Json) : List.Perm [a, b, c, d] [c, d, a, b] :=
      @List.perm_append_comm _ [a, b] [c, d]
    exact hturned _ _ _ _
  have hop : Relation.Spelling .gt (.object [("Gt", .null)]) := .object
  have hbody := Formula.Spelling.compare hop hadd (.blockNumber .list) .list
  exact ⟨_, _, hbody, rfl, [("note", .null)], List.reverse_perm [("permId", _), ("body", _),
    ("note", _)], by simp⟩

/-- The constraint is read from the text, which is not its own one. -/
theorem ofText_sumText :
    sum.Spelling sumDocument ∧ sumDocument.nesting ≤ nestingLimit ∧
      Json.read sumText = some sumDocument ∧ ofText sumText = .ok sum ∧
        sumText ≠ sum.canonicalText ∧
          Limits.standard.decode sumText = Limits.standard.accept sum := by
  have hprint : sumText = sumDocument.print := by decide +kernel
  have hdepth : sumDocument.nesting ≤ nestingLimit := by decide
  rcases ofText_of_spelling spelling_sumDocument hdepth with ⟨hread, htexts⟩
  rw [← hprint] at hread
  rcases htexts sumText hread with ⟨htext, -, -, hdecode⟩
  exact ⟨spelling_sumDocument, hdepth, hread, htext, by decide +kernel, (hdecode _).1⟩

end Constraint
end Mandate
