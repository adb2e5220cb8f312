import Mathlib.Data.List.Infix
import Mandate.Proofs.Identifier

/-!
# Phrases

A phrase is a word, or one or two phrases in parentheses with a word or nothing in front; between
two phrases there is a sign.  Words are made of the characters of identifiers, hyphens and digits
among them, and signs begin with other characters.  So a text has one reading as a phrase, also
when something follows that cannot belong to it.

Main results:

- Definitions `Phrase`, `Phrase.chars`: phrases and their texts.
- Definition `Phrase.Legible`: the words of the phrase are words, and its signs are signs.
- Theorem `append_inj_of_words`: where a word ends.
- Theorem `Phrase.sign_append_inj`: where a sign ends.
- Theorem `Phrase.chars_append_inj`: where a phrase ends, and which phrase it is.
-/

namespace Mandate

/-- A text of words, signs and parentheses. -/
inductive Phrase
  | word (w : List Char)
  /-- A word, and a phrase in parentheses behind it. -/
  | call (head : List Char) (arg : Phrase)
  /-- A word or nothing, and two phrases in parentheses behind it. -/
  | pair (head : List Char) (left : Phrase) (sign : List Char) (right : Phrase)

/-- All characters may stand in an identifier. -/
def IsWord (w : List Char) : Prop :=
  ∀ c ∈ w, IsNameChar c

/-- A word ends where its text goes on with a character of no identifier, or does not go on. -/
theorem append_inj_of_words {v w s t : List Char} (hv : IsWord v) (hw : IsWord w)
    (hs : ∀ c ∈ s.head?, ¬ IsNameChar c) (ht : ∀ c ∈ t.head?, ¬ IsNameChar c)
    (h : v ++ s = w ++ t) : v = w ∧ s = t := by
  induction v generalizing w with
  | nil =>
    cases w with
    | nil => exact ⟨rfl, h⟩
    | cons c w =>
      rw [List.nil_append] at h
      exact absurd (hw c List.mem_cons_self) (hs c (by simp [h]))
  | cons c v ih =>
    cases w with
    | nil =>
      rw [List.nil_append] at h
      exact absurd (hv c List.mem_cons_self) (ht c (by simp [← h]))
    | cons d w =>
      rw [List.cons_append, List.cons_append, List.cons.injEq] at h
      have hrest := ih (fun c hc => hv c (List.mem_cons_of_mem _ hc))
        (fun c hc => hw c (List.mem_cons_of_mem _ hc)) h.2
      rw [h.1, hrest.1]
      exact ⟨rfl, hrest.2⟩

namespace Phrase

/-- The text of a phrase. -/
def chars : Phrase → List Char
  | word w => w
  | call head arg => head ++ '(' :: (arg.chars ++ [')'])
  | pair head left sign right => head ++ '(' :: (left.chars ++ (sign ++ (right.chars ++ [')'])))

/-- The signs that may stand between two phrases. -/
def signs : List (List Char) :=
  [" + ", " - ", " > ", " < ", " >= ", " <= ", " == ", " and ", " or ", " per ", ">"].map
    String.toList

/-- The words of the phrase are words, and its signs are signs. -/
def Legible : Phrase → Prop
  | word w => IsWord w
  | call head arg => IsWord head ∧ arg.Legible
  | pair head left sign right => IsWord head ∧ left.Legible ∧ sign ∈ signs ∧ right.Legible

/-! ## Signs -/

/-- No sign is the beginning of another one. -/
theorem eq_of_prefixing_sign : ∀ a ∈ signs, ∀ b ∈ signs, a <+: b → a = b := by
  decide

theorem sign_append_inj {a b s t : List Char} (ha : a ∈ signs) (hb : b ∈ signs)
    (h : a ++ s = b ++ t) : a = b ∧ s = t := by
  have hsame : a = b := by
    rcases List.prefix_or_prefix_of_prefix (List.prefix_append a s)
      (h ▸ List.prefix_append b t) with hprefix | hprefix
    · exact eq_of_prefixing_sign a ha b hb hprefix
    · exact (eq_of_prefixing_sign b hb a ha hprefix).symm
  rw [hsame, List.append_cancel_left_eq] at h
  exact ⟨hsame, h⟩

/-- The text does not go on with anything that could still belong to a phrase. -/
def Closes (s : List Char) : Prop :=
  ∀ c ∈ s.head?, ¬ IsNameChar c ∧ c ≠ '('

theorem closes_cons {c : Char} {s : List Char} (hc : isIdentifierChar c = false) (hne : c ≠ '(') :
    Closes (c :: s) := by
  intro d hd
  rw [List.head?_cons, Option.mem_some_iff] at hd
  rw [← hd, ← isIdentifierChar_iff, hc]
  exact ⟨Bool.false_ne_true, hne⟩

theorem closes_closing (s : List Char) : Closes (')' :: s) :=
  closes_cons (by decide) (by decide)

/-- A sign begins with a character of no identifier that is no parenthesis either. -/
theorem exists_sign_head {a : List Char} (ha : a ∈ signs) :
    ∃ c rest, a = c :: rest ∧ isIdentifierChar c = false ∧ c ≠ '(' ∧ c ≠ ')' := by
  have hall : ∀ a ∈ signs, a.head?.any
      (fun c => !isIdentifierChar c && c != '(' && c != ')') = true := by decide
  have hhead := hall a ha
  cases a with
  | nil => cases hhead
  | cons c rest =>
    refine ⟨c, rest, rfl, ?_⟩
    simpa [and_assoc] using hhead

theorem closes_sign {a : List Char} (ha : a ∈ signs) (s : List Char) : Closes (a ++ s) := by
  rcases exists_sign_head ha with ⟨c, rest, rfl, hc, hopen, -⟩
  exact closes_cons hc hopen

/-- No sign stands where a parenthesis is closed. -/
theorem closing_ne_sign {a s t : List Char} (ha : a ∈ signs) : ')' :: s ≠ a ++ t := by
  rcases exists_sign_head ha with ⟨c, rest, rfl, -, -, hclosing⟩
  rw [List.cons_append, Ne, List.cons.injEq, not_and]
  exact fun heq => absurd heq.symm hclosing

/-! ## Phrases -/

/-- The word at the front of a phrase. -/
def head : Phrase → List Char
  | word w => w
  | call head _ | pair head _ _ _ => head

/-- What stands behind the word at the front: nothing, or something in parentheses. -/
def behind : Phrase → List Char
  | word _ => []
  | call _ arg => '(' :: (arg.chars ++ [')'])
  | pair _ left sign right => '(' :: (left.chars ++ (sign ++ (right.chars ++ [')'])))

theorem chars_eq (p : Phrase) : p.chars = p.head ++ p.behind := by
  cases p with
  | word w => exact (List.append_nil w).symm
  | call head arg => rfl
  | pair head left sign right => rfl

theorem Legible.head {p : Phrase} (h : p.Legible) : IsWord p.head := by
  cases p with
  | word w => exact h
  | call head arg => exact h.1
  | pair head left sign right => exact h.1

/-- No identifier goes on behind the word at the front. -/
theorem head_behind (p : Phrase) {s : List Char} (hs : Closes s) :
    ∀ c ∈ (p.behind ++ s).head?, ¬ IsNameChar c := by
  have hopening : ¬ IsNameChar '(' := by
    rw [← isIdentifierChar_iff]
    decide
  cases p with
  | word w => exact fun c hc => (hs c hc).1
  | call head arg =>
    intro c hc
    rw [behind, List.cons_append, List.head?_cons, Option.mem_some_iff] at hc
    exact hc ▸ hopening
  | pair head left sign right =>
    intro c hc
    rw [behind, List.cons_append, List.head?_cons, Option.mem_some_iff] at hc
    exact hc ▸ hopening

/-- Texts that begin with phrases agree in the words at the front and in what stands behind them. -/
theorem head_append_inj {p q : Phrase} (hp : p.Legible) (hq : q.Legible) {s t : List Char}
    (hs : Closes s) (ht : Closes t) (h : p.chars ++ s = q.chars ++ t) :
    p.head = q.head ∧ p.behind ++ s = q.behind ++ t := by
  rw [p.chars_eq, q.chars_eq, List.append_assoc, List.append_assoc] at h
  exact append_inj_of_words hp.head hq.head (p.head_behind hs) (q.head_behind ht) h

/-- Nothing that closes a phrase goes on with a parenthesis that is opened. -/
theorem Closes.ne_opening {s t : List Char} (hs : Closes s) : s ≠ '(' :: t := by
  rintro rfl
  exact (hs '(' rfl).2 rfl

/-- A text that begins with a phrase begins with no other one, if nothing follows that could belong
to a phrase. -/
theorem chars_append_inj {p q : Phrase} (hp : p.Legible) (hq : q.Legible) {s t : List Char}
    (hs : Closes s) (ht : Closes t) (h : p.chars ++ s = q.chars ++ t) : p = q ∧ s = t := by
  induction p generalizing q s t with
  | word v =>
    rcases head_append_inj hp hq hs ht h with ⟨hhead, hbehind⟩
    cases q with
    | word w => exact ⟨congrArg word hhead, hbehind⟩
    | call head arg => exact absurd hbehind hs.ne_opening
    | pair head left sign right => exact absurd hbehind hs.ne_opening
  | call head arg ih =>
    rcases head_append_inj hp hq hs ht h with ⟨hhead, hbehind⟩
    cases q with
    | word w => exact absurd hbehind.symm ht.ne_opening
    | call head' arg' =>
      simp only [behind, List.cons_append, List.append_assoc, List.nil_append, List.cons.injEq,
        true_and] at hbehind
      rcases ih hp.2 hq.2 (closes_closing s) (closes_closing t) hbehind with ⟨harg, hrest⟩
      rw [List.cons.injEq] at hrest
      exact ⟨by rw [show head = head' from hhead, harg], hrest.2⟩
    | pair head' left sign right =>
      simp only [behind, List.cons_append, List.append_assoc, List.nil_append, List.cons.injEq,
        true_and] at hbehind
      have hrest := (ih hp.2 hq.2.1 (closes_closing s) (closes_sign hq.2.2.1 _) hbehind).2
      exact absurd hrest (closing_ne_sign hq.2.2.1)
  | pair head left sign right ihl ihr =>
    rcases head_append_inj hp hq hs ht h with ⟨hhead, hbehind⟩
    cases q with
    | word w => exact absurd hbehind.symm ht.ne_opening
    | call head' arg =>
      simp only [behind, List.cons_append, List.append_assoc, List.nil_append, List.cons.injEq,
        true_and] at hbehind
      have hrest := (ihl hp.2.1 hq.2 (closes_sign hp.2.2.1 _) (closes_closing t) hbehind).2
      exact absurd hrest.symm (closing_ne_sign hp.2.2.1)
    | pair head' left' sign' right' =>
      simp only [behind, List.cons_append, List.append_assoc, List.nil_append, List.cons.injEq,
        true_and] at hbehind
      rcases ihl hp.2.1 hq.2.1 (closes_sign hp.2.2.1 _) (closes_sign hq.2.2.1 _) hbehind with
        ⟨hleft, hafter⟩
      rcases sign_append_inj hp.2.2.1 hq.2.2.1 hafter with ⟨hsign, hlast⟩
      rcases ihr hp.2.2.2 hq.2.2.2 (closes_closing s) (closes_closing t) hlast with
        ⟨hright, hrest⟩
      rw [List.cons.injEq] at hrest
      exact ⟨by rw [show head = head' from hhead, hleft, hsign, hright], hrest.2⟩

/-- A phrase is known from its text. -/
theorem eq_of_chars {p q : Phrase} (hp : p.Legible) (hq : q.Legible) (h : p.chars = q.chars) :
    p = q := by
  have hempty : Closes [] := by simp [Closes]
  exact (chars_append_inj hp hq hempty hempty (congrArg (· ++ []) h)).1

end Phrase
end Mandate
