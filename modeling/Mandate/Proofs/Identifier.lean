import Mathlib.Data.List.Basic
import Mandate.Identifier

/-!
# What an identifier is

The grammar of identifiers, said without the check: one to `limit` characters, each a letter or a
digit of ASCII, an underscore, a point or a hyphen.  The check counts bytes and the grammar counts
characters; on texts that pass both agree, since every character of the grammar is one byte.

Main results:

- Definition `IsIdentifier`: the grammar.
- Theorem `checkIdentifier_eq_none_iff`: the check lets through what the grammar allows.
- Theorem `split_of_checkIdentifier`: a character is reported with the bytes before it, none of
  which belongs to another bad character.
-/

namespace Mandate

/-! ## Characters -/

/-- A character of `[A-Za-z0-9_.-]`. -/
def IsNameChar (c : Char) : Prop :=
  ('A' ≤ c ∧ c ≤ 'Z') ∨ ('a' ≤ c ∧ c ≤ 'z') ∨ ('0' ≤ c ∧ c ≤ '9') ∨ c = '_' ∨ c = '.' ∨ c = '-'

theorem isIdentifierChar_iff {c : Char} : isIdentifierChar c = true ↔ IsNameChar c := by
  have hupper : c.isUpper = decide ('A'.val ≤ c.val ∧ c.val ≤ 'Z'.val) := rfl
  have hlower : c.isLower = (decide ('a'.val ≤ c.val) && decide (c.val ≤ 'z'.val)) := rfl
  have hdigit : c.isDigit = (decide ('0'.val ≤ c.val) && decide (c.val ≤ '9'.val)) := rfl
  have halnum : c.isAlphanum = ((c.isUpper || c.isLower) || c.isDigit) := rfl
  simp only [isIdentifierChar, IsNameChar, Char.le_def, halnum, hupper, hlower, hdigit,
    Bool.or_eq_true, Bool.and_eq_true, decide_eq_true_eq, beq_iff_eq]
  tauto

/-- Every character of an identifier is one byte. -/
theorem IsNameChar.utf8Size_eq {c : Char} (h : IsNameChar c) : c.utf8Size = 1 := by
  rw [Char.utf8Size_eq_one_iff]
  simp only [IsNameChar, Char.le_def] at h
  rcases h with h | h | h | rfl | rfl | rfl
  · exact UInt32.le_trans h.2 (by decide)
  · exact UInt32.le_trans h.2 (by decide)
  · exact UInt32.le_trans h.2 (by decide)
  all_goals decide

/-- The bytes of a text of such characters are as many as the characters. -/
theorem utf8ByteSize_of_isNameChar {cs : List Char} (h : ∀ c ∈ cs, IsNameChar c) :
    (String.ofList cs).utf8ByteSize = cs.length := by
  induction cs with
  | nil => rfl
  | cons c cs ih =>
    have hc : c.utf8Size = 1 := (h c List.mem_cons_self).utf8Size_eq
    have hcs : (String.ofList cs).utf8ByteSize = cs.length :=
      ih fun d hd => h d (List.mem_cons_of_mem c hd)
    rw [String.ofList_cons, String.utf8ByteSize_append, String.utf8ByteSize_singleton, hc, hcs,
      List.length_cons, Nat.add_comm]

/-! ## Texts -/

/-- One to `limit` characters, all of `[A-Za-z0-9_.-]`. -/
def IsIdentifier (limit : Nat) (s : String) : Prop :=
  1 ≤ s.length ∧ s.length ≤ limit ∧ ∀ c ∈ s.toList, IsNameChar c

theorem firstInvalid?_eq_none_iff {offset : Nat} {cs : List Char} :
    firstInvalid? offset cs = none ↔ ∀ c ∈ cs, IsNameChar c := by
  induction cs generalizing offset with
  | nil => simp [firstInvalid?]
  | cons c cs ih =>
    by_cases hc : isIdentifierChar c = true
    · simp [firstInvalid?, hc, ih, isIdentifierChar_iff.1 hc]
    · simp [firstInvalid?, hc, ← isIdentifierChar_iff]

/-- The first bad character stands behind good ones, and is reported with their bytes. -/
theorem split_of_firstInvalid? {offset place : Nat} {cs : List Char} {c : Char}
    (h : firstInvalid? offset cs = some (c, place)) :
    ∃ before after, cs = before ++ c :: after ∧ (∀ d ∈ before, IsNameChar d) ∧ ¬ IsNameChar c ∧
      place = offset + (String.ofList before).utf8ByteSize := by
  induction cs generalizing offset with
  | nil => simp [firstInvalid?] at h
  | cons d cs ih =>
    by_cases hd : isIdentifierChar d = true
    · rw [firstInvalid?, if_pos hd] at h
      rcases ih h with ⟨before, after, hcs, hbefore, hc, hplace⟩
      refine ⟨d :: before, after, by rw [hcs, List.cons_append], ?_, hc, ?_⟩
      · simpa [isIdentifierChar_iff.1 hd] using hbefore
      · rw [hplace, String.ofList_cons, String.utf8ByteSize_append, String.utf8ByteSize_singleton,
          Nat.add_assoc]
    · rw [firstInvalid?, if_neg hd, Option.some.injEq, Prod.mk.injEq] at h
      rcases h with ⟨rfl, rfl⟩
      exact ⟨[], cs, rfl, by simp, fun hc => hd (isIdentifierChar_iff.2 hc), rfl⟩

/-- The check lets a text through if and only if it is an identifier. -/
theorem checkIdentifier_eq_none_iff {limit : Nat} {s : String} :
    checkIdentifier limit s = none ↔ IsIdentifier limit s := by
  have hempty : s.isEmpty = true ↔ s.length = 0 := by
    rw [String.isEmpty_iff, ← String.length_toList, List.length_eq_zero_iff,
      String.toList_eq_nil_iff]
  by_cases hchars : ∀ c ∈ s.toList, IsNameChar c
  · have hbytes : s.utf8ByteSize = s.length := by
      rw [← String.length_toList, ← utf8ByteSize_of_isNameChar hchars, String.ofList_toList]
    have hfirst : firstInvalid? 0 s.toList = none := firstInvalid?_eq_none_iff.2 hchars
    unfold checkIdentifier IsIdentifier
    rw [hfirst, hbytes]
    split_ifs with hnone hlong
    · simp [hempty.1 hnone]
    · simp only [false_iff]
      omega
    · rw [hempty] at hnone
      simp only [Option.map_none, true_iff]
      exact ⟨by omega, by omega, hchars⟩
  · have hfirst : firstInvalid? 0 s.toList ≠ none := fun h =>
      hchars (firstInvalid?_eq_none_iff.1 h)
    unfold checkIdentifier IsIdentifier
    split_ifs <;> simp [hfirst, hchars]

/-- A character that is reported is the first one that is not of the grammar, and the offset counts
the bytes before it. -/
theorem split_of_checkIdentifier {limit offset : Nat} {s : String} {c : Char}
    (h : checkIdentifier limit s = some (.invalidChar c offset)) :
    ∃ before after, s.toList = before ++ c :: after ∧ (∀ d ∈ before, IsNameChar d) ∧
      ¬ IsNameChar c ∧ offset = (String.ofList before).utf8ByteSize := by
  unfold checkIdentifier at h
  split_ifs at h
  · simp at h
  · simp at h
  · rcases Option.map_eq_some_iff.1 h with ⟨⟨d, place⟩, hfirst, hreason⟩
    rw [IdentifierError.invalidChar.injEq] at hreason
    rcases hreason with ⟨rfl, rfl⟩
    simpa using split_of_firstInvalid? hfirst

end Mandate
