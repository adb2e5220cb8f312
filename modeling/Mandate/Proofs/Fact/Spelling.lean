import Mathlib.Data.List.Basic
import Mandate.Fact.Text
import Mandate.Proofs.Text.Splitting

/-!
# The texts of fact keys have one reading

A text is cut at its first colon, at the first arrow and at the last at sign.  So the names in a key
may hold any of these signs, except that the first account of a weight holds no arrow.  Reading
takes no empty name.  It gives back what has been written, and it takes one spelling beside the
written one: a period may have a plus sign and zeros in front.

Main results:

- Theorem `Decimal.toNat?_eq_some_iff`: the numerals of a number.
- Definition `FactKey.Legible`: the keys whose texts are read back.
- Definition `FactKey.Spelling`: the texts of a key.
- Theorem `FactKey.ofText?_eq_some_iff`: reading takes the spellings of legible keys, and no other
  text.
-/

namespace Mandate

/-! ## Numerals -/

namespace Decimal

/-- A digit is the numeral of its value. -/
theorem ofNat_digit {c : Char} (hc : c.isDigit = true) :
    c.toNat - '0'.toNat < 10 ∧ ofNat (c.toNat - '0'.toNat) = [c] := by
  have hzero : '0'.toNat = 48 := rfl
  have hnine : '9'.toNat = 57 := rfl
  rw [Char.isDigit_iff_toNat, hzero, hnine] at hc
  rw [hzero]
  have hlt : c.toNat - 48 < 10 := by omega
  refine ⟨hlt, ?_⟩
  rw [ofNat, Nat.toDigits_of_lt_base hlt, List.cons.injEq, ← Char.toNat_inj,
    Nat.toNat_digitChar_of_lt_ten hlt]
  exact ⟨by omega, rfl⟩

/-- A row of digits is the numeral of its value behind some zeros. -/
theorem exists_zeros {cs : List Char} (hne : cs ≠ []) (hcs : ∀ c ∈ cs, c.isDigit = true) :
    ∃ zeros, cs = List.replicate zeros '0' ++ ofNat (Nat.ofDigitChars 10 cs 0) := by
  induction cs using List.reverseRecOn with
  | nil => exact absurd rfl hne
  | append_singleton cs c ih =>
    rcases ofNat_digit (hcs c (by simp)) with ⟨hlt, hdigit⟩
    rw [Nat.ofDigitChars_append, Nat.ofDigitChars_cons, Nat.ofDigitChars_nil]
    by_cases hcs' : cs = []
    · refine ⟨0, ?_⟩
      rw [hcs', Nat.ofDigitChars_nil, Nat.mul_zero, Nat.zero_add, hdigit]
      rfl
    · rcases ih hcs' fun d hd => hcs d (List.mem_append_left _ hd) with ⟨zeros, hzeros⟩
      by_cases hvalue : Nat.ofDigitChars 10 cs 0 = 0
      · -- the digits before are all zeros, one of them being the numeral of zero
        refine ⟨zeros + 1, ?_⟩
        rw [hvalue] at hzeros ⊢
        rw [hzeros, Nat.mul_zero, Nat.zero_add, hdigit, List.replicate_succ']
        rfl
      · refine ⟨zeros, ?_⟩
        have hnext := Nat.toDigits_append_toDigits (by decide) (Nat.pos_of_ne_zero hvalue) hlt
        rw [ofNat, ← hnext, ← List.append_assoc]
        exact congrArg₂ _ hzeros hdigit.symm

/-- The numerals of a number are the shortest one and those with zeros in front of it. -/
theorem toNat?_eq_some_iff {cs : List Char} {n : Nat} :
    toNat? cs = some n ↔ ∃ zeros, cs = List.replicate zeros '0' ++ ofNat n := by
  constructor
  · intro h
    unfold toNat? at h
    split at h
    · next hnumeral =>
      rw [Option.some.injEq] at h
      simp only [isNumeral, Bool.and_eq_true, Bool.not_eq_true', List.isEmpty_eq_false_iff,
        List.all_eq_true] at hnumeral
      rw [← h]
      exact exists_zeros hnumeral.1 hnumeral.2
    · cases h
  · rintro ⟨zeros, rfl⟩
    exact toNat?_zeros zeros n

theorem isDigit_of_mem_zeros {zeros n : Nat} {c : Char}
    (h : c ∈ List.replicate zeros '0' ++ ofNat n) : c.isDigit = true := by
  rcases List.mem_append.1 h with hzero | hdigit
  · rw [List.eq_of_mem_replicate hzero]
    rfl
  · exact isDigit_of_mem_ofNat hdigit

/-- What may stand in front of a numeral: a plus sign, and zeros. -/
def padding (plus : Bool) (zeros : Nat) : List Char :=
  (if plus then ['+'] else []) ++ List.replicate zeros '0'

theorem not_mem_padded {c : Char} (hplus : c ≠ '+') (hdigit : c.isDigit = false) (plus : Bool)
    (zeros n : Nat) : c ∉ padding plus zeros ++ ofNat n := by
  intro h
  rw [padding, List.append_assoc] at h
  rcases List.mem_append.1 h with hsign | hzeros
  · cases plus with
    | true => exact hplus (List.mem_singleton.1 hsign)
    | false => cases hsign
  · rw [isDigit_of_mem_zeros hzeros] at hdigit
    cases hdigit

end Decimal

namespace FactKey

/-! ## Parts of a text -/

/-- A period is read off its numeral, whatever padding is in front. -/
theorem numeral?_eq_some_iff {cs : List Char} {n : Quantity} :
    numeral? cs = some n ↔
      ∃ plus zeros, cs = Decimal.padding plus zeros ++ Decimal.ofNat n.toNat := by
  have hquantity : ∀ m, Quantity.ofNat? m = some n ↔ m = n.toNat := fun m =>
    ⟨fun h => (Quantity.toNat_of_ofNat? h).symm, fun h => h ▸ n.ofNat?_toNat⟩
  have hdigits : ∀ ds, (Decimal.toNat? ds).bind Quantity.ofNat? = some n ↔
      ∃ zeros, ds = List.replicate zeros '0' ++ Decimal.ofNat n.toNat := by
    intro ds
    simp only [Option.bind_eq_some_iff, hquantity, exists_eq_right, Decimal.toNat?_eq_some_iff]
  unfold numeral?
  split
  · next ds =>
    rw [hdigits]
    constructor
    · rintro ⟨zeros, rfl⟩
      exact ⟨true, zeros, rfl⟩
    · rintro ⟨plus, zeros, heq⟩
      cases plus with
      | true => exact ⟨zeros, (List.cons.inj heq).2⟩
      | false =>
        have hdigit : '+'.isDigit = true :=
          Decimal.isDigit_of_mem_zeros (heq ▸ List.mem_cons_self : '+' ∈ _ ++ _)
        cases hdigit
  · next hplus =>
    rw [hdigits]
    constructor
    · rintro ⟨zeros, rfl⟩
      exact ⟨false, zeros, rfl⟩
    · rintro ⟨plus, zeros, rfl⟩
      cases plus with
      | true => exact absurd rfl (hplus _)
      | false => exact ⟨zeros, rfl⟩

theorem ofList_ne_empty_iff {cs : List Char} : String.ofList cs ≠ "" ↔ cs ≠ [] := by
  rw [ne_eq, ← String.toList_eq_nil_iff, String.toList_ofList]

/-- Two accounts are read around the first arrow. -/
theorem accounts?_eq_some_iff {cs : List Char} {s t : AccountId} :
    accounts? cs = some (s, t) ↔
      (s.text ≠ "" ∧ t.text ≠ "" ∧ ¬ ['-', '>'] <:+: s.text.toList) ∧
        cs = s.text.toList ++ '-' :: '>' :: t.text.toList := by
  have hcut : Text.splitFirst? ['-', '>'] cs = some (s.text.toList, t.text.toList) ↔
      ¬ ['-', '>'] <:+: s.text.toList ∧ cs = s.text.toList ++ '-' :: '>' :: t.text.toList :=
    (Text.splitFirst?_pair_iff (by decide)).trans and_comm
  rw [and_assoc, and_assoc, ← hcut]
  unfold accounts?
  cases Text.splitFirst? ['-', '>'] cs with
  | none => simp
  | some cut =>
    rcases cut with ⟨before, rest⟩
    dsimp only
    rw [Option.some.injEq, Prod.mk.injEq]
    constructor
    · intro h
      split at h
      · cases h
      · next hne =>
        simp only [Bool.or_eq_true, List.isEmpty_iff, not_or] at hne
        cases h
        simp [hne, ← String.toList_eq_nil_iff]
    · rintro ⟨hs, ht, rfl, rfl⟩
      simp [hs, ht]

/-- A name and a period are read around the last at sign. -/
theorem countedPeriod?_eq_some_iff {cs : List Char} {p : PermId} {n : Quantity} :
    countedPeriod? cs = some (p, n) ↔
      p.text ≠ "" ∧ ∃ plus zeros, cs =
        p.text.toList ++ '@' :: (Decimal.padding plus zeros ++ Decimal.ofNat n.toNat) := by
  have hcut : ∀ before rest, Text.splitLast? '@' cs = some (before, rest) ↔
      cs = before ++ '@' :: rest ∧ '@' ∉ rest := fun before rest => Text.splitLast?_eq_some_iff
  constructor
  · intro h
    unfold countedPeriod? at h
    split at h
    · next before rest hsplit =>
      split at h
      · cases h
      · next hne =>
        rcases Option.map_eq_some_iff.1 h with ⟨period, hperiod, heq⟩
        rcases numeral?_eq_some_iff.1 hperiod with ⟨plus, zeros, rfl⟩
        cases heq
        refine ⟨ofList_ne_empty_iff.2 (by simpa using hne), plus, zeros, ?_⟩
        rw [String.toList_ofList]
        exact ((hcut _ _).1 hsplit).1
    · cases h
  · rintro ⟨hp, plus, zeros, rfl⟩
    have hsplit := (hcut p.text.toList _).2
      ⟨rfl, Decimal.not_mem_padded (by decide) (by decide) plus zeros n.toNat⟩
    unfold countedPeriod?
    rw [hsplit]
    dsimp only
    rw [if_neg (by simpa using hp), numeral?_eq_some_iff.2 ⟨plus, zeros, rfl⟩, Option.map_some,
      String.ofList_toList]

/-! ## Keys -/

/-- The names in a key. -/
def names : FactKey → List String
  | .blockNumber => []
  | .stakeOf a => [a.text]
  | .weightSet s t | .weightPower s t => [s.text, t.text]
  | .permissionExists p | .permissionEnabled p | .delegationDepth p | .operationCount p _
  | .redelegated p => [p.text]

/-- No name in the key is empty, and the first account of a weight holds no arrow. -/
structure Legible (k : FactKey) : Prop where
  names : ∀ name ∈ k.names, name ≠ ""
  source : ∀ s t, k = .weightSet s t ∨ k = .weightPower s t → ¬ ['-', '>'] <:+: s.text.toList

/-- The texts of a key: the written one, and for an operation count those with a plus sign or zeros
in front of the period. -/
inductive Spelling : FactKey → String → Prop
  | display (k : FactKey) : Spelling k k.display
  | padded (p : PermId) (n : Quantity) (plus : Bool) (zeros : Nat) :
      Spelling (.operationCount p n) ("operation-count:" ++ p.text ++ "@" ++
        String.ofList (Decimal.padding plus zeros) ++ n.text)

/-- A text with a colon is read by the word in front of the first one. -/
theorem ofText?_of_parts (word rest : String) (hword : ':' ∉ word.toList) (hrest : rest ≠ "") :
    ofText? (word ++ ":" ++ rest) = ofParts? word rest.toList := by
  have hcut : (word ++ ":" ++ rest).toList = word.toList ++ ':' :: rest.toList := by simp
  have hblock : word ++ ":" ++ rest ≠ "block-number" := by
    intro hblock
    have hcolon : ':' ∈ "block-number".toList := by
      rw [← hblock, hcut]
      exact List.mem_append_right _ List.mem_cons_self
    exact absurd hcolon (by decide)
  unfold ofText?
  rw [if_neg hblock, Text.splitFirst?_char_iff.2 ⟨hcut, hword⟩]
  dsimp only
  rw [if_neg (by simpa using hrest), String.ofList_toList]

/-- What is read is the block number, or has a word and something behind a colon. -/
theorem parts_of_ofText? {text : String} {k : FactKey} (h : ofText? text = some k) :
    (text = "block-number" ∧ k = .blockNumber) ∨
      ∃ word rest, text = word ++ ":" ++ String.ofList rest ∧ rest ≠ [] ∧
        ofParts? word rest = some k := by
  unfold ofText? at h
  split at h
  · next hblock => exact Or.inl ⟨hblock, (Option.some.inj h).symm⟩
  · split at h
    · next word rest hsplit =>
      split at h
      · cases h
      · next hrest =>
        refine Or.inr ⟨String.ofList word, rest, ?_, by simpa using hrest, h⟩
        rw [← String.toList_inj, (Text.splitFirst?_char_iff.1 hsplit).1]
        simp
    · cases h

/-- A key with one name is legible if that is not empty. -/
theorem legible_of_name {k : FactKey} {name : String} (hnames : k.names = [name])
    (hname : name ≠ "") (hweight : ∀ s t, k ≠ .weightSet s t ∧ k ≠ .weightPower s t) :
    k.Legible := by
  refine ⟨?_, ?_⟩
  · rw [hnames]
    exact fun other hother => List.mem_singleton.1 hother ▸ hname
  · rintro s t (h | h)
    · exact absurd h (hweight s t).1
    · exact absurd h (hweight s t).2

/-- A weight is legible if both accounts are named and the first one holds no arrow. -/
theorem legible_weight_iff {k : FactKey} {s t : AccountId}
    (h : k = .weightSet s t ∨ k = .weightPower s t) :
    k.Legible ↔ s.text ≠ "" ∧ t.text ≠ "" ∧ ¬ ['-', '>'] <:+: s.text.toList := by
  constructor
  · intro hk
    have hnames := hk.names
    rcases h with rfl | rfl
    · exact ⟨hnames _ (by simp [names]), hnames _ (by simp [names]), hk.source s t (Or.inl rfl)⟩
    · exact ⟨hnames _ (by simp [names]), hnames _ (by simp [names]), hk.source s t (Or.inr rfl)⟩
  · rintro ⟨hs, ht, harrow⟩
    rcases h with rfl | rfl
    · exact ⟨by simp [names, hs, ht], by simpa using harrow⟩
    · exact ⟨by simp [names, hs, ht], by simpa using harrow⟩

theorem accounts_text (word : String) (s t : AccountId) :
    word ++ ":" ++ String.ofList (s.text.toList ++ '-' :: '>' :: t.text.toList) =
      word ++ ":" ++ s.text ++ "->" ++ t.text := by
  rw [← String.toList_inj]
  simp

theorem period_text (word : String) (p : PermId) (plus : Bool) (zeros : Nat) (n : Quantity) :
    word ++ ":" ++ String.ofList (p.text.toList ++ '@' ::
      (Decimal.padding plus zeros ++ Decimal.ofNat n.toNat)) =
      word ++ ":" ++ p.text ++ "@" ++ String.ofList (Decimal.padding plus zeros) ++ n.text := by
  rw [← String.toList_inj]
  simp [Quantity.text, Decimal.natText]

/-- What is read is legible, and the text is one of its spellings. -/
theorem spelling_of_ofText? {text : String} {k : FactKey} (h : ofText? text = some k) :
    k.Legible ∧ k.Spelling text := by
  rcases parts_of_ofText? h with ⟨rfl, rfl⟩ | ⟨word, rest, rfl, hrest, h⟩
  · exact ⟨⟨by simp [names], by simp⟩, .display _⟩
  · have hname : String.ofList rest ≠ "" := ofList_ne_empty_iff.2 hrest
    unfold ofParts? at h
    split at h
    · cases h
      exact ⟨legible_of_name rfl hname (by simp), .display (.stakeOf _)⟩
    · rcases Option.map_eq_some_iff.1 h with ⟨⟨s, t⟩, haccounts, rfl⟩
      rcases accounts?_eq_some_iff.1 haccounts with ⟨hst, rfl⟩
      refine ⟨(legible_weight_iff (Or.inl rfl)).2 hst, ?_⟩
      rw [accounts_text "weight-set"]
      exact .display (.weightSet s t)
    · rcases Option.map_eq_some_iff.1 h with ⟨⟨s, t⟩, haccounts, rfl⟩
      rcases accounts?_eq_some_iff.1 haccounts with ⟨hst, rfl⟩
      refine ⟨(legible_weight_iff (Or.inr rfl)).2 hst, ?_⟩
      rw [accounts_text "weight-power-from"]
      exact .display (.weightPower s t)
    · cases h
      exact ⟨legible_of_name rfl hname (by simp), .display (.permissionExists _)⟩
    · cases h
      exact ⟨legible_of_name rfl hname (by simp), .display (.permissionEnabled _)⟩
    · cases h
      exact ⟨legible_of_name rfl hname (by simp), .display (.delegationDepth _)⟩
    · rcases Option.map_eq_some_iff.1 h with ⟨⟨p, n⟩, hcounted, rfl⟩
      rcases countedPeriod?_eq_some_iff.1 hcounted with ⟨hp, plus, zeros, rfl⟩
      refine ⟨legible_of_name rfl hp (by simp), ?_⟩
      rw [period_text "operation-count"]
      exact .padded p n plus zeros
    · cases h
      exact ⟨legible_of_name rfl hname (by simp), .display (.redelegated _)⟩
    · cases h

theorem ofText?_accounts (word : String) (hword : ':' ∉ word.toList) (s t : AccountId) :
    ofText? (word ++ ":" ++ s.text ++ "->" ++ t.text) =
      ofParts? word (s.text.toList ++ '-' :: '>' :: t.text.toList) := by
  rw [← accounts_text, ofText?_of_parts word _ hword (ofList_ne_empty_iff.2 (by simp)),
    String.toList_ofList]

theorem ofText?_padded {p : PermId} (hp : p.text ≠ "") (n : Quantity) (plus : Bool) (zeros : Nat) :
    ofText? ("operation-count" ++ ":" ++ p.text ++ "@" ++
      String.ofList (Decimal.padding plus zeros) ++ n.text) = some (.operationCount p n) := by
  rw [← period_text, ofText?_of_parts "operation-count" _ (by decide)
    (ofList_ne_empty_iff.2 (by simp)), String.toList_ofList]
  simp only [ofParts?, countedPeriod?_eq_some_iff.2 ⟨hp, plus, zeros, rfl⟩, Option.map_some]

/-- Every spelling of a legible key is read. -/
theorem ofText?_of_spelling {text : String} {k : FactKey} (h : k.Legible)
    (htext : k.Spelling text) : ofText? text = some k := by
  cases htext with
  | display =>
    have hname : ∀ word name, k.names = [name] → ':' ∉ word.toList →
        ofText? (word ++ ":" ++ name) = ofParts? word name.toList :=
      fun word name hnames hword =>
        ofText?_of_parts word name hword (h.names name (by simp [hnames]))
    cases k with
    | blockNumber => rfl
    | stakeOf a => exact (hname "stake-of" a.text rfl (by decide)).trans (by simp [ofParts?])
    | weightSet s t =>
      have haccounts := accounts?_eq_some_iff.2 ⟨(legible_weight_iff (Or.inl rfl)).1 h, rfl⟩
      exact (ofText?_accounts "weight-set" (by decide) s t).trans (by simp [ofParts?, haccounts])
    | weightPower s t =>
      have haccounts := accounts?_eq_some_iff.2 ⟨(legible_weight_iff (Or.inr rfl)).1 h, rfl⟩
      exact (ofText?_accounts "weight-power-from" (by decide) s t).trans
        (by simp [ofParts?, haccounts])
    | permissionExists p =>
      exact (hname "permission-exists" p.text rfl (by decide)).trans (by simp [ofParts?])
    | permissionEnabled p =>
      exact (hname "permission-enabled" p.text rfl (by decide)).trans (by simp [ofParts?])
    | delegationDepth p =>
      exact (hname "delegation-depth" p.text rfl (by decide)).trans (by simp [ofParts?])
    | operationCount p n =>
      -- the written text is the one without padding
      have hpadded := ofText?_padded (h.names p.text (by simp [names])) n false 0
      have hnone : String.ofList (Decimal.padding false 0) = "" := rfl
      rw [hnone, String.append_empty] at hpadded
      exact hpadded
    | redelegated p => exact (hname "redelegated" p.text rfl (by decide)).trans (by simp [ofParts?])
  | padded p n plus zeros =>
    exact ofText?_padded (h.names _ (by simp [names])) n plus zeros

/-- Reading takes the spellings of legible keys, and no other text. -/
theorem ofText?_eq_some_iff {text : String} {k : FactKey} :
    ofText? text = some k ↔ k.Legible ∧ k.Spelling text :=
  ⟨spelling_of_ofText?, fun h => ofText?_of_spelling h.1 h.2⟩

end FactKey
end Mandate
