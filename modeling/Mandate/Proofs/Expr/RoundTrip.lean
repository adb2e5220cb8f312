import Mandate.Expr.Decoding
import Mandate.Proofs.Json.Decoding
import Mandate.Proofs.Json.Reading

/-!
# Constraints through JSON

A constraint is written as a document that is as deep as its body, and one more.  It is read again
unless the document is too deep for the decoder.  Every document from which a constraint is read, in
whatever spelling, is at least as deep as the constraint.

Main results:

- Theorems `Term.written_toJson`, `Predicate.written_toJson`, `Formula.written_toJson`: the
  documents that are written, and their depth.
- Theorems `Term.ofJsonWithin_toJson`, `Predicate.ofJsonWithin_toJson`,
  `Formula.ofJsonWithin_toJson`: what is written is read again.
- Theorems `Term.depth_le_nesting`, `Predicate.depth_le_nesting`, `Formula.depth_le_nesting`: the
  depth of what is read.
- Theorem `Constraint.ofText_canonicalText`: reading the text of a constraint.
- Theorem `Constraint.roundTrip`: which constraints are read again, and that those that have been
  read from any text are among them.
-/

namespace Mandate

open Decode

/-! ## Parts of documents -/

/-- A digit is no white space. -/
theorem Text.isBlank_of_isDigit {c : Char} (h : c.isDigit = true) : Text.isBlank c = false := by
  simp only [Char.isDigit, Bool.and_eq_true, decide_eq_true_eq, ge_iff_le,
    UInt32.le_iff_toNat_le] at h
  have hlow : 48 ≤ c.toNat := h.1
  have hhigh : c.toNat ≤ 57 := h.2
  simp [Text.isBlank]
  omega

/-- A node is split behind its tag. -/
theorem splitTag_tagged (inner : Bool) {tags : List String} {tag : String}
    {fields : List (String × Json)} (htag : tag ∈ tags) (hfields : ∀ m ∈ fields, m.1 ≠ tagName) :
    splitTag inner tags (taggedJson tag fields) = .ok (tag, .members fields) :=
  splitTag_object inner htag hfields

/-- Two operands are read from the members for them. -/
theorem operands_ofMembers {α : Type} {decode : Json → Decoded α} {x y : Json} {a b : α}
    (hx : decode x = .ok a) (hy : decode y = .ok b) :
    (Record.two false (.required "left" decode) (.required "right" decode)).ofMembers
      [("left", x), ("right", y)] = .ok (a, b) := by
  have hname : "right" ≠ "left" := by decide
  exact Record.two_ofMembers false hx hy hname

/-- A quantity is read from its decimal text. -/
theorem decodeQuantity_text (q : Quantity) : decodeQuantity (.text q.text) = .ok q := by
  have hblank : ∀ c ∈ Decimal.ofNat q.toNat, Text.isBlank c = false :=
    fun c hc => Text.isBlank_of_isDigit (Decimal.isDigit_of_mem_ofNat hc)
  have htrim : Text.trimBlanks ([] ++ Decimal.ofNat q.toNat ++ []) = Decimal.ofNat q.toNat :=
    Text.trimBlanks_pad (by simp) (by simp) hblank
  rw [List.nil_append, List.append_nil] at htrim
  simp [decodeQuantity, quantityOfText, Quantity.text, Decimal.natText, htrim]

/-- What is read from a required field is read from one of the documents. -/
theorem yields_required_iff {δ α : Type} {name : String} {decode : δ → Decoded α} {ds : List δ}
    {a : α} : (Field.required name decode).Yields ds a ↔ ∃ d ∈ ds, decode d = .ok a := by
  simp [Field.Yields, Field.required]

/-- What is read from a required field is smaller than a bound that the documents are less deep
than, if it is never greater than the document from which it is read is deep. -/
theorem lt_of_yields {α : Type} (measure : α → Nat) {name : String} {decode : Json → Decoded α}
    {ds : List Json} {bound : Nat} {a : α} (hlt : ∀ d ∈ ds, d.nesting < bound)
    (hle : ∀ {d : Json} {a : α}, decode d = .ok a → measure a ≤ d.nesting)
    (h : (Field.required name decode).Yields ds a) : measure a < bound := by
  rcases yields_required_iff.1 h with ⟨d, hd, hdecode⟩
  exact Nat.lt_of_le_of_lt (hle hdecode) (hlt d hd)

/-- The document can be read as it is written, denotes something throughout, and has the depth. -/
structure Json.Written (j : Json) (depth : Nat) : Prop where
  exact : j.Exact
  readable : j.readable = true
  nesting : j.nesting = depth

/-- A node whose fields are texts. -/
theorem written_leaf (tag : String) {fields : List (String × Json)}
    (h : ∀ m ∈ fields, ∃ s, m.2 = .text s) : (taggedJson tag fields).Written 1 := by
  have hfields : Json.MembersExact fields ∧ Json.membersReadable fields = true ∧
      Json.membersNesting fields = 0 := by
    induction fields with
    | nil => exact ⟨trivial, rfl, rfl⟩
    | cons member fields ih =>
      rcases member with ⟨name, j⟩
      rcases ih fun m hm => h m (List.mem_cons_of_mem _ hm) with ⟨hexact, hreadable, hnesting⟩
      rcases h _ List.mem_cons_self with ⟨s, rfl⟩
      exact ⟨⟨trivial, hexact⟩, hreadable, by rw [Json.membersNesting, hnesting]; rfl⟩
  rcases hfields with ⟨hexact, hreadable, hnesting⟩
  exact ⟨⟨trivial, hexact⟩, hreadable, by
    rw [taggedJson, Json.nesting, Json.membersNesting, hnesting]; rfl⟩

/-- A node with one field. -/
theorem written_one (tag name : String) {x : Json} {d : Nat} (hx : x.Written d) :
    (taggedJson tag [(name, x)]).Written (1 + d) where
  exact := ⟨trivial, hx.exact, trivial⟩
  readable := by simp [taggedJson, Json.readable, Json.membersReadable, hx.readable]
  nesting := by
    simp [taggedJson, Json.nesting, Json.membersNesting, hx.nesting, Nat.add_comm]

/-- A node with two fields. -/
theorem written_two (tag name other : String) {x y : Json} {d e : Nat} (hx : x.Written d)
    (hy : y.Written e) : (taggedJson tag [(name, x), (other, y)]).Written (1 + max d e) where
  exact := ⟨trivial, hx.exact, hy.exact, trivial⟩
  readable := by simp [taggedJson, Json.readable, Json.membersReadable, hx.readable, hy.readable]
  nesting := by
    simp [taggedJson, Json.nesting, Json.membersNesting, hx.nesting, hy.nesting, Nat.add_comm]

/-! ## Terms -/

namespace Term

theorem depth_pos (t : Term) : 0 < t.depth := by
  cases t <;> simp only [depth] <;> omega

theorem written_toJson (t : Term) : t.toJson.Written t.depth := by
  induction t with
  | literal q => exact written_leaf _ (by simp)
  | blockNumber => exact written_leaf _ (by simp)
  | stakeOf a => exact written_leaf _ (by simp)
  | add l r hl hr => exact written_two _ _ _ hl hr
  | sub l r hl hr => exact written_two _ _ _ hl hr
  | weightSet s t => exact written_leaf _ (by simp)
  | weightPower s t => exact written_leaf _ (by simp)

/-- A term is read from the document that is written for it. -/
theorem ofJsonWithin_toJson {t : Term} (inner : Bool) {height : Nat} (h : t.depth ≤ height) :
    ofJsonWithin inner height t.toJson = .ok t := by
  induction height generalizing inner t with
  | zero => exact absurd t.depth_pos (Nat.not_lt_of_le h)
  | succ height ih =>
    cases t with
    | literal q =>
      rw [toJson, ofJsonWithin, splitTag_tagged inner (by decide) (by simp [tagName])]
      have hvalue := decodeQuantity_text q
      -- the text of the number need not be looked into again
      generalize Json.text q.text = x at hvalue ⊢
      exact Record.map_ofMembers (Record.one_ofMembers hvalue) literal
    | blockNumber =>
      rw [toJson, ofJsonWithin, splitTag_tagged inner (by decide) (by simp)]
      rfl
    | stakeOf a =>
      rw [toJson, ofJsonWithin, splitTag_tagged inner (by decide) (by simp [tagName])]
      rfl
    | add l r =>
      simp only [depth] at h
      rw [toJson, ofJsonWithin, splitTag_tagged inner (by decide) (by simp [tagName])]
      exact Record.map_ofMembers (operands_ofMembers (ih true (by omega)) (ih true (by omega))) _
    | sub l r =>
      simp only [depth] at h
      rw [toJson, ofJsonWithin, splitTag_tagged inner (by decide) (by simp [tagName])]
      exact Record.map_ofMembers (operands_ofMembers (ih true (by omega)) (ih true (by omega))) _
    | weightSet s t =>
      rw [toJson, ofJsonWithin, splitTag_tagged inner (by decide) (by simp [tagName])]
      rfl
    | weightPower s t =>
      rw [toJson, ofJsonWithin, splitTag_tagged inner (by decide) (by simp [tagName])]
      rfl

/-- A term is no deeper than the document from which it is read. -/
theorem depth_le_nesting {inner : Bool} {height : Nat} {j : Json} {t : Term}
    (h : ofJsonWithin inner height j = .ok t) : t.depth ≤ j.nesting := by
  induction height generalizing inner j t with
  | zero => cases h
  | succ height ih =>
    rw [ofJsonWithin] at h
    rcases bind_eq_ok_iff.1 h with ⟨⟨tag, content⟩, hsplit, hcontent⟩
    have hlt := nesting_lt_of_splitTag hsplit
    have hpos := nesting_pos_of_splitTag hsplit
    -- the tags in the order in which they are tried
    dsimp only at hcontent
    split at hcontent
    · rcases ((Record.draws_one _).map _).content hcontent with ⟨q, -, rfl⟩
      exact hpos
    · rw [(Record.draws_zero _).content hcontent]
      exact hpos
    · rcases ((Record.draws_one _).map _).content hcontent with ⟨a, -, rfl⟩
      exact hpos
    · rcases ((Record.draws_two _ _ _).map _).content hcontent with ⟨⟨l, r⟩, ⟨hl, hr⟩, rfl⟩
      have hleft : l.depth < j.nesting := lt_of_yields depth hlt ih hl
      have hright : r.depth < j.nesting := lt_of_yields depth hlt ih hr
      simp only [depth]
      omega
    · rcases ((Record.draws_two _ _ _).map _).content hcontent with ⟨⟨l, r⟩, ⟨hl, hr⟩, rfl⟩
      have hleft : l.depth < j.nesting := lt_of_yields depth hlt ih hl
      have hright : r.depth < j.nesting := lt_of_yields depth hlt ih hr
      simp only [depth]
      omega
    · rcases ((Record.draws_two _ _ _).map _).content hcontent with ⟨⟨s, t⟩, -, rfl⟩
      exact hpos
    · rcases ((Record.draws_two _ _ _).map _).content hcontent with ⟨⟨s, t⟩, -, rfl⟩
      exact hpos

end Term

/-! ## Predicates -/

namespace Predicate

theorem written_toJson (p : Predicate) : p.toJson.Written p.depth := by
  cases p with
  | maxDelegationDepth d => exact written_one _ _ d.written_toJson
  | permissionExists p => exact written_leaf _ (by simp)
  | permissionEnabled p => exact written_leaf _ (by simp)
  | rateLimit m p => exact written_two _ _ _ m.written_toJson p.written_toJson
  | inactiveUnlessRedelegated => exact written_leaf _ (by simp)

/-- A predicate is read from the document that is written for it. -/
theorem ofJsonWithin_toJson {p : Predicate} (inner : Bool) {height : Nat} (h : p.depth ≤ height) :
    ofJsonWithin inner height p.toJson = .ok p := by
  cases p with
  | maxDelegationDepth d =>
    simp only [depth] at h
    rw [toJson, ofJsonWithin, tag, splitTag_tagged inner (by decide) (by simp [tagName])]
    have hlimit := Term.ofJsonWithin_toJson true (show d.depth ≤ height by omega)
    exact Record.map_ofMembers (Record.one_ofMembers hlimit) _
  | permissionExists p =>
    rw [toJson, ofJsonWithin, tag, splitTag_tagged inner (by decide) (by simp [tagName])]
    rfl
  | permissionEnabled p =>
    rw [toJson, ofJsonWithin, tag, splitTag_tagged inner (by decide) (by simp [tagName])]
    rfl
  | rateLimit m p =>
    simp only [depth] at h
    rw [toJson, ofJsonWithin, tag, splitTag_tagged inner (by decide) (by simp [tagName])]
    have hname : "period" ≠ "maxOperations" := by decide
    have hlimit := Term.ofJsonWithin_toJson true (show m.depth ≤ height by omega)
    have hperiod := Term.ofJsonWithin_toJson true (show p.depth ≤ height by omega)
    exact Record.map_ofMembers (Record.two_ofMembers false hlimit hperiod hname) _
  | inactiveUnlessRedelegated =>
    rw [toJson, ofJsonWithin, tag, splitTag_tagged inner (by decide) (by simp)]
    rfl

/-- A predicate is no deeper than the document from which it is read. -/
theorem depth_le_nesting {inner : Bool} {height : Nat} {j : Json} {p : Predicate}
    (h : ofJsonWithin inner height j = .ok p) : p.depth ≤ j.nesting := by
  rw [ofJsonWithin] at h
  rcases bind_eq_ok_iff.1 h with ⟨⟨tag, content⟩, hsplit, hcontent⟩
  have hlt := nesting_lt_of_splitTag hsplit
  have hpos := nesting_pos_of_splitTag hsplit
  dsimp only at hcontent
  split at hcontent
  · rcases ((Record.draws_one _).map _).content hcontent with ⟨d, hd, rfl⟩
    have hlimit : d.depth < j.nesting := lt_of_yields Term.depth hlt Term.depth_le_nesting hd
    simp only [depth]
    omega
  · rcases ((Record.draws_one _).map _).content hcontent with ⟨p, -, rfl⟩
    exact hpos
  · rcases ((Record.draws_one _).map _).content hcontent with ⟨p, -, rfl⟩
    exact hpos
  · rcases ((Record.draws_two _ _ _).map _).content hcontent with ⟨⟨m, p⟩, ⟨hm, hp⟩, rfl⟩
    have hlimit : m.depth < j.nesting := lt_of_yields Term.depth hlt Term.depth_le_nesting hm
    have hperiod : p.depth < j.nesting := lt_of_yields Term.depth hlt Term.depth_le_nesting hp
    simp only [depth]
    omega
  · rw [(Record.draws_zero _).content hcontent]
    exact hpos

end Predicate

/-! ## Formulas -/

namespace Formula

theorem depth_pos (f : Formula) : 0 < f.depth := by
  cases f <;> simp only [depth] <;> omega

theorem written_toJson (f : Formula) : f.toJson.Written f.depth := by
  induction f with
  | not f hf => exact written_one _ _ hf
  | and l r hl hr => exact written_two _ _ _ hl hr
  | or l r hl hr => exact written_two _ _ _ hl hr
  | compare op l r =>
    rcases l.written_toJson with ⟨hexact, hreadable, hnesting⟩
    rcases r.written_toJson with ⟨hexact', hreadable', hnesting'⟩
    constructor
    · exact ⟨trivial, trivial, hexact, hexact', trivial⟩
    · simp [toJson, taggedJson, Json.readable, Json.membersReadable, hreadable, hreadable']
    · simp [toJson, taggedJson, Json.nesting, Json.membersNesting, depth, hnesting, hnesting',
        Nat.add_comm]
  | base p => exact written_one _ _ p.written_toJson

/-- A relation is read from its word. -/
theorem ofInnerJson_word (op : Relation) : Relation.ofInnerJson (.text op.word) = .ok op := by
  cases op <;> rfl

/-- A formula is read from the document that is written for it. -/
theorem ofJsonWithin_toJson {f : Formula} (inner : Bool) {height : Nat} (h : f.depth ≤ height) :
    ofJsonWithin inner height f.toJson = .ok f := by
  induction height generalizing inner f with
  | zero => exact absurd f.depth_pos (Nat.not_lt_of_le h)
  | succ height ih =>
    cases f with
    | not f =>
      simp only [depth] at h
      rw [toJson, ofJsonWithin, splitTag_tagged inner (by decide) (by simp [tagName])]
      exact Record.map_ofMembers (Record.one_ofMembers (ih true (by omega))) _
    | and l r =>
      simp only [depth] at h
      rw [toJson, ofJsonWithin, splitTag_tagged inner (by decide) (by simp [tagName])]
      exact Record.map_ofMembers (operands_ofMembers (ih true (by omega)) (ih true (by omega))) _
    | or l r =>
      simp only [depth] at h
      rw [toJson, ofJsonWithin, splitTag_tagged inner (by decide) (by simp [tagName])]
      exact Record.map_ofMembers (operands_ofMembers (ih true (by omega)) (ih true (by omega))) _
    | compare op l r =>
      simp only [depth] at h
      rw [toJson, ofJsonWithin, splitTag_tagged inner (by decide) (by simp [tagName])]
      have hleft := Term.ofJsonWithin_toJson true (show l.depth ≤ height by omega)
      have hright := Term.ofJsonWithin_toJson true (show r.depth ≤ height by omega)
      have hfirst : "left" ≠ "op" := by decide
      have hsecond : "right" ≠ "op" := by decide
      have hthird : "right" ≠ "left" := by decide
      exact Record.map_ofMembers (Record.three_ofMembers false (ofInnerJson_word op) hleft hright
        hfirst hsecond hthird) _
    | base p =>
      simp only [depth] at h
      rw [toJson, ofJsonWithin, splitTag_tagged inner (by decide) (by simp [tagName])]
      have hbody := Predicate.ofJsonWithin_toJson true (show p.depth ≤ height by omega)
      exact Record.map_ofMembers (Record.one_ofMembers hbody) _

/-- A formula is no deeper than the document from which it is read. -/
theorem depth_le_nesting {inner : Bool} {height : Nat} {j : Json} {f : Formula}
    (h : ofJsonWithin inner height j = .ok f) : f.depth ≤ j.nesting := by
  induction height generalizing inner j f with
  | zero => cases h
  | succ height ih =>
    rw [ofJsonWithin] at h
    rcases bind_eq_ok_iff.1 h with ⟨⟨tag, content⟩, hsplit, hcontent⟩
    have hlt := nesting_lt_of_splitTag hsplit
    dsimp only at hcontent
    split at hcontent
    · rcases ((Record.draws_one _).map _).content hcontent with ⟨g, hg, rfl⟩
      have hbody : g.depth < j.nesting := lt_of_yields depth hlt ih hg
      simp only [depth]
      omega
    · rcases ((Record.draws_two _ _ _).map _).content hcontent with ⟨⟨l, r⟩, ⟨hl, hr⟩, rfl⟩
      have hleft : l.depth < j.nesting := lt_of_yields depth hlt ih hl
      have hright : r.depth < j.nesting := lt_of_yields depth hlt ih hr
      simp only [depth]
      omega
    · rcases ((Record.draws_two _ _ _).map _).content hcontent with ⟨⟨l, r⟩, ⟨hl, hr⟩, rfl⟩
      have hleft : l.depth < j.nesting := lt_of_yields depth hlt ih hl
      have hright : r.depth < j.nesting := lt_of_yields depth hlt ih hr
      simp only [depth]
      omega
    · rcases ((Record.draws_three _ _ _ _).map _).content hcontent with
        ⟨⟨op, l, r⟩, ⟨-, hl, hr⟩, rfl⟩
      have hleft : l.depth < j.nesting := lt_of_yields Term.depth hlt Term.depth_le_nesting hl
      have hright : r.depth < j.nesting := lt_of_yields Term.depth hlt Term.depth_le_nesting hr
      simp only [depth]
      omega
    · rcases ((Record.draws_one _).map _).content hcontent with ⟨p, hp, rfl⟩
      have hbody : p.depth < j.nesting :=
        lt_of_yields Predicate.depth hlt Predicate.depth_le_nesting hp
      simp only [depth]
      omega

/-- Inside other documents, a formula is read again as long as it is not too deep together with
them. -/
theorem ofJsonAt_toJson (outer : Nat) (f : Formula) :
    ofJsonAt outer f.toJson =
      if outer + f.depth ≤ nestingLimit then .ok f else .error .malformed := by
  rcases f.written_toJson with ⟨-, hreadable, hnesting⟩
  have hheight : f.depth ≤ f.toJson.nesting + 1 := by omega
  simp only [ofJsonAt, decodeBounded, hreadable, Bool.true_and, decide_eq_true_eq,
    ofJsonWithin_toJson false hheight]
  rw [hnesting]

/-- Whatever formula is read inside other documents is not too deep together with them. -/
theorem depth_le_of_ofJsonAt {outer : Nat} {j : Json} {f : Formula}
    (h : ofJsonAt outer j = .ok f) : outer + f.depth ≤ nestingLimit := by
  unfold ofJsonAt decodeBounded at h
  split at h
  · next hbounded =>
    rw [Bool.and_eq_true, decide_eq_true_eq] at hbounded
    have hdepth := depth_le_nesting h
    omega
  · cases h

end Formula

/-! ## Constraints -/

namespace Constraint

/-- The document of a constraint is read as the constraint, or it is too deep. -/
theorem ofJson_toJson (c : Constraint) :
    ofJson c.toJson = if c.body.depth ≤ 126 then .ok c else .error .malformed := by
  have hbody := Formula.ofJsonAt_toJson 1 c.body
  have hname : "body" ≠ "permId" := by decide
  have hdecode : ofJson c.toJson =
      record.ofMembers [("permId", .text c.permission.text), ("body", c.body.toJson)] := rfl
  have hlimit : 1 + c.body.depth ≤ nestingLimit ↔ c.body.depth ≤ 126 := by
    unfold nestingLimit
    omega
  rw [hdecode]
  by_cases hdepth : c.body.depth ≤ 126
  · rw [if_pos (hlimit.2 hdepth)] at hbody
    rw [if_pos hdepth]
    exact Record.map_ofMembers (Record.two_ofMembers false rfl hbody hname) _
  · rw [if_neg fun hle => hdepth (hlimit.1 hle)] at hbody
    rw [if_neg hdepth]
    exact congrArg (Except.map _) (Record.two_ofMembers_error false rfl hbody hname)

theorem exact_toJson (c : Constraint) : c.toJson.Exact :=
  ⟨trivial, c.body.written_toJson.exact, trivial⟩

/-- The text of a constraint is read as the constraint, or it is too deep. -/
theorem ofText_canonicalText (c : Constraint) :
    ofText c.canonicalText = if c.body.depth ≤ 126 then .ok c else .error .malformed := by
  rw [ofText, canonicalText, Decode.ofText, Json.read_print c.exact_toJson]
  exact c.ofJson_toJson

/-- No text is read as a constraint that is too deep. -/
theorem depth_le_of_ofText {text : String} {c : Constraint} (h : ofText text = .ok c) :
    c.body.depth ≤ 126 := by
  unfold ofText Decode.ofText at h
  split at h
  · rcases ((Record.draws_two _ _ _).map _).decode h with ⟨ds, ⟨p, f⟩, ⟨-, hf⟩, rfl⟩
    rcases yields_required_iff.1 hf with ⟨d, -, hdecode⟩
    have hdepth : 1 + f.depth ≤ 127 := Formula.depth_le_of_ofJsonAt hdecode
    exact Nat.le_of_add_le_add_left hdepth
  · cases h

/-- A constraint is read from the text that is written for it, whatever its names and its numbers
are, if the height of its body is 126 at most, and otherwise the text is refused.  Whatever text a
constraint has been read from, its body is not higher, so it is read again from its own text. -/
theorem roundTrip :
    (∀ c : Constraint, ofText c.canonicalText =
      if c.body.depth ≤ 126 then .ok c else .error .malformed) ∧
    ∀ (text : String) (c : Constraint), ofText text = .ok c →
      c.body.depth ≤ 126 ∧ ofText c.canonicalText = .ok c := by
  refine ⟨ofText_canonicalText, ?_⟩
  intro text c h
  have hdepth := depth_le_of_ofText h
  exact ⟨hdepth, (ofText_canonicalText c).trans (if_pos hdepth)⟩

/-- A constraint may also be written as the list of its fields. -/
theorem ofJson_list {c : Constraint} (h : c.body.depth ≤ 126) :
    ofJson (.array [.text c.permission.text, c.body.toJson]) = .ok c := by
  have hlimit : 1 + c.body.depth ≤ nestingLimit := Nat.add_le_add_left h 1
  have hbody := (Formula.ofJsonAt_toJson 1 c.body).trans (if_pos hlimit)
  have hfields : (Record.two false (.required "permId" PermId.ofJson)
      (.required "body" (Formula.ofJsonAt 1))).ofItems
        [.text c.permission.text, c.body.toJson] = .ok ((c.permission, c.body), []) :=
    Record.two_ofItems false [] rfl hbody
  simp only [ofJson, record, Record.decode, Record.ofAllItems, Record.map, hfields]
  rfl

/-- A constraint that has been read from a list is read again from the object that is written for
it. -/
theorem roundTrip_list :
    let text := "[\"p\",\x7b\"$\":\"Base\",\"body\":\x7b\"$\":\"InactiveUnlessRedelegated\"\x7d\x7d]"
    let c : Constraint := ⟨⟨"p"⟩, .base .inactiveUnlessRedelegated⟩
    ofText text = .ok c ∧ c.canonicalText ≠ text ∧ ofText c.canonicalText = .ok c := by
  intro text c
  have hdepth : c.body.depth ≤ 126 := by decide
  have hprint : text = (Json.array [.text "p", c.body.toJson]).print := by decide +kernel
  have hread : Json.read text = some (.array [.text "p", c.body.toJson]) := by
    rw [hprint]
    exact Json.read_print ⟨trivial, c.body.written_toJson.exact, trivial⟩
  have htext : ofText text = .ok c := by
    rw [ofText, Decode.ofText, hread]
    exact ofJson_list hdepth
  exact ⟨htext, by decide +kernel, (roundTrip.2 text c htext).2⟩

end Constraint
end Mandate
