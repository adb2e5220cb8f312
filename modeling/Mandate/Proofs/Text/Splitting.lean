import Mathlib.Data.List.Infix
import Mandate.Text.Split

/-!
# Where a text is cut

A text is cut at the first occurrence of a separator if and only if the separator ends nowhere
earlier.  An occurrence may overlap the one at which the text is cut, so it is not enough to look at
the part in front of it; it is enough for a separator that has no end in common with its beginning.

Main results:

- Theorem `splitFirst?_eq_some_iff`: the first occurrence of any separator.
- Theorem `splitFirst?_char_iff`: that of a single character.
- Theorem `splitFirst?_pair_iff`: that of two different characters, which cannot overlap.
- Theorem `splitLast?_eq_some_iff`: the last occurrence of a character.
-/

namespace Mandate
namespace Text

variable {separator cs before rest : List Char}

theorem behind?_eq_some_iff {front : List Char} :
    behind? front cs = some rest ↔ cs = front ++ rest := by
  induction front generalizing cs with
  | nil => exact Option.some_inj
  | cons f front ih =>
    cases cs with
    | nil => simp [behind?]
    | cons c cs =>
      rw [behind?, List.cons_append, List.cons.injEq, ← ih, eq_comm (a := c)]
      by_cases hfront : f = c <;> simp [hfront]

theorem behind?_eq_none_iff {front : List Char} : behind? front cs = none ↔ ¬ front <+: cs := by
  rw [Option.eq_none_iff_forall_ne_some]
  simp only [ne_eq, behind?_eq_some_iff]
  exact ⟨fun h hprefix => hprefix.elim fun rest hrest => h rest hrest.symm,
    fun h rest hrest => h ⟨rest, hrest.symm⟩⟩

/-! ## The first occurrence -/

/-- The separator begins at the front of a text if and only if it ends in what comes before the end
of an occurrence of it. -/
theorem prefix_occurrence_iff {c : Char} (hne : separator ≠ []) :
    separator <+: c :: (before ++ separator ++ rest) ↔
      separator <+: c :: (before ++ separator.dropLast) := by
  have hshorter : c :: (before ++ separator.dropLast) <+: c :: (before ++ separator ++ rest) := by
    rw [List.prefix_cons_inj, List.append_assoc, List.prefix_append_right_inj]
    exact (List.dropLast_prefix separator).trans (List.prefix_append separator rest)
  refine ⟨fun h => List.prefix_of_prefix_length_le h hshorter ?_, fun h => h.trans hshorter⟩
  have hpos : 0 < separator.length := List.length_pos_of_ne_nil hne
  simp only [List.length_cons, List.length_append, List.length_dropLast]
  omega

/-- A text is cut at its front, or else where what follows is cut. -/
theorem splitFirst?_cons_iff {c : Char} :
    splitFirst? separator (c :: cs) = some (before, rest) ↔
      (before = [] ∧ c :: cs = separator ++ rest) ∨
        (¬ separator <+: c :: cs ∧
          ∃ front, before = c :: front ∧ splitFirst? separator cs = some (front, rest)) := by
  rw [splitFirst?]
  cases hbehind : behind? separator (c :: cs) with
  | some other =>
    rw [behind?_eq_some_iff] at hbehind
    have hfront : separator <+: c :: cs := ⟨other, hbehind.symm⟩
    rw [or_iff_left fun h => h.1 hfront, hbehind, List.append_cancel_left_eq, Option.some.injEq,
      Prod.mk.injEq, eq_comm (a := [])]
  | none =>
    rw [behind?_eq_none_iff] at hbehind
    rw [or_iff_right fun h => hbehind ⟨rest, h.2.symm⟩, and_iff_right hbehind,
      Option.map_eq_some_iff]
    constructor
    · rintro ⟨⟨front, tail⟩, hcut, heq⟩
      rcases Prod.mk.inj heq with ⟨rfl, rfl⟩
      exact ⟨front, rfl, hcut⟩
    · rintro ⟨front, rfl, hcut⟩
      exact ⟨(front, rest), hcut, rfl⟩

/-- A text is cut at an occurrence of the separator before whose end no other one ends. -/
theorem splitFirst?_eq_some_iff (hne : separator ≠ []) :
    splitFirst? separator cs = some (before, rest) ↔
      cs = before ++ separator ++ rest ∧ ¬ separator <:+: before ++ separator.dropLast := by
  induction cs generalizing before with
  | nil => simp [splitFirst?, hne]
  | cons c cs ih =>
    rw [splitFirst?_cons_iff]
    cases before with
    | nil =>
      -- the separator is too long to stand in a part of itself
      have hown : ¬ separator <:+: separator.dropLast := by
        intro h
        have hlength := h.length_le
        have hpos : 0 < separator.length := List.length_pos_of_ne_nil hne
        rw [List.length_dropLast] at hlength
        omega
      simp [hown]
    | cons b before =>
      have hinner : (∃ front, b :: before = c :: front ∧
          splitFirst? separator cs = some (front, rest)) ↔
            c = b ∧ splitFirst? separator cs = some (before, rest) := by
        simp only [List.cons.injEq, and_assoc, eq_comm (a := b)]
        exact ⟨fun h => h.elim fun front h => ⟨h.1, h.2.1 ▸ h.2.2⟩,
          fun h => ⟨before, h.1, rfl, h.2⟩⟩
      rw [hinner, ih, or_iff_right fun h => List.cons_ne_nil _ _ h.1]
      simp only [List.cons_append, List.cons.injEq, List.infix_cons_iff, not_or]
      constructor
      · rintro ⟨hfront, rfl, rfl, hlater⟩
        exact ⟨⟨rfl, rfl⟩, (prefix_occurrence_iff hne).not.1 hfront, hlater⟩
      · rintro ⟨⟨rfl, rfl⟩, hfront, hlater⟩
        exact ⟨(prefix_occurrence_iff hne).not.2 hfront, rfl, rfl, hlater⟩

/-- At the first of a character no such character is in front. -/
theorem splitFirst?_char_iff {c : Char} :
    splitFirst? [c] cs = some (before, rest) ↔ cs = before ++ c :: rest ∧ c ∉ before := by
  rw [splitFirst?_eq_some_iff (List.cons_ne_nil c []), List.dropLast_singleton, List.append_nil,
    List.singleton_infix_iff, List.append_assoc, List.singleton_append]

/-- Two different characters do not overlap with themselves, so at their first occurrence there is
none in front, whatever the last character there is. -/
theorem splitFirst?_pair_iff {c d : Char} (hcd : c ≠ d) :
    splitFirst? [c, d] cs = some (before, rest) ↔
      cs = before ++ c :: d :: rest ∧ ¬ [c, d] <:+: before := by
  have hends : ¬ [c, d] <:+ before ++ [c] := by
    rw [List.suffix_concat_iff]
    rintro (h | ⟨t, ht, -⟩)
    · cases h
    · have hlast := congrArg List.getLast? ht
      simp only [List.getLast?_concat, List.getLast?_cons_cons, List.getLast?_singleton,
        Option.some.injEq] at hlast
      exact hcd hlast.symm
  have hdrop : [c, d].dropLast = [c] := rfl
  rw [splitFirst?_eq_some_iff (List.cons_ne_nil c [d]), hdrop, List.infix_concat_iff,
    or_iff_right hends, List.append_assoc, List.cons_append, List.singleton_append]

/-! ## The last occurrence -/

theorem splitLast?_eq_none_iff {c : Char} : splitLast? c cs = none ↔ c ∉ cs := by
  induction cs with
  | nil => simp [splitLast?]
  | cons d cs ih =>
    rw [splitLast?, List.mem_cons, not_or, ← ih, eq_comm (a := c)]
    cases splitLast? c cs with
    | some cut => simp
    | none => by_cases hd : d = c <;> simp [hd]

/-- A text is cut where what follows is cut, or else at its front. -/
theorem splitLast?_cons_iff {c d : Char} :
    splitLast? c (d :: cs) = some (before, rest) ↔
      (before = [] ∧ d = c ∧ cs = rest ∧ c ∉ rest) ∨
        ∃ front, before = d :: front ∧ splitLast? c cs = some (front, rest) := by
  rw [splitLast?]
  cases hcut : splitLast? c cs with
  | some cut =>
    have hmem : c ∈ cs := by
      by_contra hnot
      rw [splitLast?_eq_none_iff.2 hnot] at hcut
      cases hcut
    rw [or_iff_right fun h => h.2.2.2 (h.2.2.1 ▸ hmem)]
    rcases cut with ⟨front, tail⟩
    simp only [Option.some.injEq, Prod.mk.injEq]
    constructor
    · intro h
      exact ⟨front, h.1.symm, rfl, h.2⟩
    · rintro ⟨_, hbefore, rfl, htail⟩
      exact ⟨hbefore.symm, htail⟩
  | none =>
    rw [splitLast?_eq_none_iff] at hcut
    simp only [reduceCtorEq, and_false, exists_false, or_false]
    by_cases hd : d = c
    · rw [if_pos hd, Option.some.injEq, Prod.mk.injEq]
      exact ⟨fun h => ⟨h.1.symm, hd, h.2, h.2 ▸ hcut⟩, fun h => ⟨h.1.symm, h.2.2.1⟩⟩
    · simp [hd]

/-- A text is cut at the last of a character, behind which there is none. -/
theorem splitLast?_eq_some_iff {c : Char} :
    splitLast? c cs = some (before, rest) ↔ cs = before ++ c :: rest ∧ c ∉ rest := by
  induction cs generalizing before with
  | nil => simp [splitLast?]
  | cons d cs ih =>
    rw [splitLast?_cons_iff]
    simp only [ih]
    cases before with
    | nil => simp [and_assoc]
    | cons b before =>
      simp only [List.cons_append, List.cons.injEq, reduceCtorEq, false_and, false_or]
      constructor
      · rintro ⟨_, ⟨rfl, rfl⟩, rfl, hrest⟩
        exact ⟨⟨rfl, rfl⟩, hrest⟩
      · rintro ⟨⟨rfl, rfl⟩, hrest⟩
        exact ⟨before, ⟨rfl, rfl⟩, rfl, hrest⟩

end Text
end Mandate
