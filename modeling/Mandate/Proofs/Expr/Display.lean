import Mandate.Expr.Text
import Mandate.Proofs.Fact.Names
import Mandate.Proofs.Text.Phrases

/-!
# The readable form has one reading

The readable form of an expression is a phrase whose words are the names in the expression, its
numerals and the words for its operators.  If all characters of the names may stand in identifiers,
the text tells the phrase, and the phrase tells the expression in any case.  The two accounts of a
weight are kept apart by the head of the arrow: its shaft may count as the last character of the
first account, since no account holds the head.

Main results:

- Definitions `Term.phrase`, `Predicate.phrase`, `Formula.phrase`: the phrase of an expression.
- Theorems `Term.toList_display`, `Predicate.toList_display`, `Formula.toList_display`: its text is
  the readable form.
- Theorems `Term.phrase_inj`, `Predicate.phrase_inj`, `Formula.phrase_inj`: no other expression of
  the kind has it.
- Theorems `Term.legible_phrase`, `Predicate.legible_phrase`, `Formula.legible_phrase`: a phrase is
  legible if its names are words.
- Theorem `Constraint.display_eq_iff`: a constraint whose names are words is known from its readable
  form.
-/

namespace Mandate

/-! ## Names -/

/-- All names in the place are made of characters of identifiers. -/
def Place.Worded (place : Place) : Prop :=
  ∀ name, place.Holds name → IsWord name.toList

theorem Place.Worded.of_field {place part : Place} {field : String} (h : place.Worded)
    (hfield : (field, part) ∈ place.fields) : part.Worded :=
  fun name hname => h name (hname.of_field hfield)

theorem Place.Worded.name {place : Place} {field name : String} (h : place.Worded)
    (hfield : (field, .name name) ∈ place.fields) : IsWord name.toList :=
  h name (Place.holds_of_mem_fields hfield)

/-- The period of a limit holds the names that it holds as a term. -/
theorem Place.Worded.term {t : Term} (h : (Place.period t).Worded) : (Place.term t).Worded := by
  intro name hname
  rcases hname with ⟨path, hpath⟩
  cases path with
  | nil => cases hpath
  | cons field rest => exact h name ⟨field :: rest, hpath⟩

/-- The names in an admissible constraint are made of characters of identifiers. -/
theorem Limits.worded_of_check {limits : Limits} {c : Constraint} (h : limits.check c = none) :
    (Place.constraint c).Worded := by
  intro name hname
  rcases hname with ⟨path, hpath⟩
  exact (Limits.isIdentifier_of_check h hpath).2.2

/-! ## Phrases of expressions -/

/-- The phrase of a term. -/
def Term.phrase : Term → Phrase
  | .literal q => .word (Decimal.ofNat q.toNat)
  | .blockNumber => .word "block-number".toList
  | .stakeOf a => .call "stake-of".toList (.word a.text.toList)
  | .add l r => .pair [] l.phrase " + ".toList r.phrase
  | .sub l r => .pair [] l.phrase " - ".toList r.phrase
  | .weightSet s t =>
    .pair "weight-set".toList (.word (s.text.toList ++ ['-'])) ">".toList (.word t.text.toList)
  | .weightPower s t =>
    .pair "weight-power-from".toList (.word (s.text.toList ++ ['-'])) ">".toList
      (.word t.text.toList)

/-- The phrase of a predicate. -/
def Predicate.phrase : Predicate → Phrase
  | .maxDelegationDepth d => .call "max-delegation-depth".toList d.phrase
  | .permissionExists p => .call "permission-exists".toList (.word p.text.toList)
  | .permissionEnabled p => .call "permission-enabled".toList (.word p.text.toList)
  | .rateLimit m p => .pair "rate-limit".toList m.phrase " per ".toList p.phrase
  | .inactiveUnlessRedelegated => .word "inactive-unless-redelegated".toList

/-- The sign of a relation between two terms. -/
def Relation.sign (op : Relation) : List Char :=
  ' ' :: (op.symbol.toList ++ [' '])

/-- The phrase of a formula. -/
def Formula.phrase : Formula → Phrase
  | .not f => .call "not".toList f.phrase
  | .and l r => .pair [] l.phrase " and ".toList r.phrase
  | .or l r => .pair [] l.phrase " or ".toList r.phrase
  | .compare op l r => .pair [] l.phrase op.sign r.phrase
  | .base p => p.phrase

theorem Term.toList_display (t : Term) : t.display.toList = t.phrase.chars := by
  induction t with
  | literal q => exact String.toList_ofList
  | blockNumber => rfl
  | stakeOf a =>
    calc (Term.stakeOf a).display.toList = ("stake-of(" ++ a.text ++ ")").toList := rfl
      _ = (Term.stakeOf a).phrase.chars := by simp [phrase, Phrase.chars]
  | add l r ihl ihr =>
    calc (Term.add l r).display.toList
        = ("(" ++ l.display ++ " + " ++ r.display ++ ")").toList := rfl
      _ = (Term.add l r).phrase.chars := by simp [phrase, Phrase.chars, ihl, ihr]
  | sub l r ihl ihr =>
    calc (Term.sub l r).display.toList
        = ("(" ++ l.display ++ " - " ++ r.display ++ ")").toList := rfl
      _ = (Term.sub l r).phrase.chars := by simp [phrase, Phrase.chars, ihl, ihr]
  | weightSet s t =>
    calc (Term.weightSet s t).display.toList
        = ("weight-set(" ++ s.text ++ "->" ++ t.text ++ ")").toList := rfl
      _ = (Term.weightSet s t).phrase.chars := by simp [phrase, Phrase.chars]
  | weightPower s t =>
    calc (Term.weightPower s t).display.toList
        = ("weight-power-from(" ++ s.text ++ "->" ++ t.text ++ ")").toList := rfl
      _ = (Term.weightPower s t).phrase.chars := by simp [phrase, Phrase.chars]

theorem Predicate.toList_display (p : Predicate) : p.display.toList = p.phrase.chars := by
  cases p with
  | maxDelegationDepth d =>
    calc (maxDelegationDepth d).display.toList
        = ("max-delegation-depth(" ++ d.display ++ ")").toList := rfl
      _ = (maxDelegationDepth d).phrase.chars := by simp [phrase, Phrase.chars, d.toList_display]
  | permissionExists p =>
    calc (permissionExists p).display.toList = ("permission-exists(" ++ p.text ++ ")").toList := rfl
      _ = (permissionExists p).phrase.chars := by simp [phrase, Phrase.chars]
  | permissionEnabled p =>
    calc (permissionEnabled p).display.toList
        = ("permission-enabled(" ++ p.text ++ ")").toList := rfl
      _ = (permissionEnabled p).phrase.chars := by simp [phrase, Phrase.chars]
  | rateLimit m p =>
    calc (rateLimit m p).display.toList
        = ("rate-limit(" ++ m.display ++ " per " ++ p.display ++ ")").toList := rfl
      _ = (rateLimit m p).phrase.chars := by
        simp [phrase, Phrase.chars, m.toList_display, p.toList_display]
  | inactiveUnlessRedelegated => rfl

theorem Formula.toList_display (f : Formula) : f.display.toList = f.phrase.chars := by
  induction f with
  | not f ih => simp [display, phrase, Phrase.chars, ih]
  | and l r ihl ihr => simp [display, phrase, Phrase.chars, ihl, ihr]
  | or l r ihl ihr => simp [display, phrase, Phrase.chars, ihl, ihr]
  | compare op l r =>
    simp [display, phrase, Phrase.chars, Relation.sign, l.toList_display, r.toList_display]
  | base p => exact p.toList_display

/-! ## Expressions of phrases -/

/-- A numeral is not the word for the number of the block. -/
theorem Decimal.ofNat_ne_blockNumber (n : Nat) : ofNat n ≠ "block-number".toList := by
  intro h
  have hfirst : 'b' ∈ ofNat n := by
    rw [h]
    decide
  exact absurd (isDigit_of_mem_ofNat hfirst) (by decide)

theorem Decimal.ofNat_inj {m n : Nat} (h : ofNat m = ofNat n) : m = n := by
  have hread := toNat?_ofNat m
  rw [h, toNat?_ofNat] at hread
  exact (Option.some.inj hread).symm

theorem Term.phrase_inj {t u : Term} (h : t.phrase = u.phrase) : t = u := by
  induction t generalizing u with
  | literal q =>
    cases u with
    | literal q' => rw [Quantity.ext (Decimal.ofNat_inj (Phrase.word.inj h))]
    | blockNumber => exact absurd (Phrase.word.inj h) (Decimal.ofNat_ne_blockNumber _)
    | _ => simp [phrase] at h
  | blockNumber =>
    cases u with
    | literal q => exact absurd (Phrase.word.inj h).symm (Decimal.ofNat_ne_blockNumber _)
    | blockNumber => rfl
    | _ => simp [phrase] at h
  | stakeOf a =>
    cases u with
    | stakeOf a' =>
      simp only [phrase, Phrase.call.injEq, true_and, Phrase.word.injEq, String.toList_inj] at h
      rw [AccountId.ext h]
    | _ => simp [phrase] at h
  | add l r ihl ihr =>
    cases u with
    | add l' r' =>
      simp only [phrase, Phrase.pair.injEq, true_and] at h
      rw [ihl h.1, ihr h.2]
    | _ => simp [phrase] at h
  | sub l r ihl ihr =>
    cases u with
    | sub l' r' =>
      simp only [phrase, Phrase.pair.injEq, true_and] at h
      rw [ihl h.1, ihr h.2]
    | _ => simp [phrase] at h
  | weightSet s t =>
    cases u with
    | weightSet s' t' =>
      simp only [phrase, Phrase.pair.injEq, true_and, Phrase.word.injEq,
        List.append_left_inj, String.toList_inj] at h
      rw [AccountId.ext h.1, AccountId.ext h.2]
    | _ => simp [phrase] at h
  | weightPower s t =>
    cases u with
    | weightPower s' t' =>
      simp only [phrase, Phrase.pair.injEq, true_and, Phrase.word.injEq,
        List.append_left_inj, String.toList_inj] at h
      rw [AccountId.ext h.1, AccountId.ext h.2]
    | _ => simp [phrase] at h

theorem Predicate.phrase_inj {p q : Predicate} (h : p.phrase = q.phrase) : p = q := by
  cases p with
  | maxDelegationDepth d =>
    cases q with
    | maxDelegationDepth d' =>
      simp only [phrase, Phrase.call.injEq, true_and] at h
      rw [Term.phrase_inj h]
    | _ => simp [phrase] at h
  | permissionExists p =>
    cases q with
    | permissionExists p' =>
      simp only [phrase, Phrase.call.injEq, true_and, Phrase.word.injEq, String.toList_inj] at h
      rw [PermId.ext h]
    | _ => simp [phrase] at h
  | permissionEnabled p =>
    cases q with
    | permissionEnabled p' =>
      simp only [phrase, Phrase.call.injEq, true_and, Phrase.word.injEq, String.toList_inj] at h
      rw [PermId.ext h]
    | _ => simp [phrase] at h
  | rateLimit m p =>
    cases q with
    | rateLimit m' p' =>
      simp only [phrase, Phrase.pair.injEq, true_and] at h
      rw [Term.phrase_inj h.1, Term.phrase_inj h.2]
    | _ => simp [phrase] at h
  | inactiveUnlessRedelegated =>
    cases q with
    | inactiveUnlessRedelegated => rfl
    | _ => simp [phrase] at h

theorem Relation.sign_inj {op op' : Relation} (h : op.sign = op'.sign) : op = op' := by
  cases op <;> cases op' <;> first | rfl | simp [sign, symbol] at h

/-- A comparison stands between other phrases than a conjunction or a disjunction. -/
theorem Relation.sign_ne (op : Relation) : op.sign ≠ " and ".toList ∧ op.sign ≠ " or ".toList := by
  cases op <;> decide

theorem Formula.phrase_inj {f g : Formula} (h : f.phrase = g.phrase) : f = g := by
  induction f generalizing g with
  | not f ih =>
    cases g with
    | not g =>
      simp only [phrase, Phrase.call.injEq, true_and] at h
      rw [ih h]
    | base p => cases p <;> simp [phrase, Predicate.phrase] at h
    | _ => simp [phrase] at h
  | and l r ihl ihr =>
    cases g with
    | and l' r' =>
      simp only [phrase, Phrase.pair.injEq, true_and] at h
      rw [ihl h.1, ihr h.2]
    | compare op l' r' =>
      exact absurd (Phrase.pair.inj h).2.2.1.symm op.sign_ne.1
    | base p => cases p <;> simp [phrase, Predicate.phrase] at h
    | _ => simp [phrase] at h
  | or l r ihl ihr =>
    cases g with
    | or l' r' =>
      simp only [phrase, Phrase.pair.injEq, true_and] at h
      rw [ihl h.1, ihr h.2]
    | compare op l' r' =>
      exact absurd (Phrase.pair.inj h).2.2.1.symm op.sign_ne.2
    | base p => cases p <;> simp [phrase, Predicate.phrase] at h
    | _ => simp [phrase] at h
  | compare op l r =>
    cases g with
    | and l' r' => exact absurd (Phrase.pair.inj h).2.2.1 op.sign_ne.1
    | or l' r' => exact absurd (Phrase.pair.inj h).2.2.1 op.sign_ne.2
    | compare op' l' r' =>
      simp only [phrase, Phrase.pair.injEq, true_and] at h
      rw [Term.phrase_inj h.1, Relation.sign_inj h.2.1, Term.phrase_inj h.2.2]
    | base p => cases p <;> simp [phrase, Predicate.phrase] at h
    | _ => simp [phrase] at h
  | base p =>
    cases g with
    | base q => rw [Predicate.phrase_inj h]
    | _ => cases p <;> simp [phrase, Predicate.phrase] at h

/-! ## Legible phrases -/

theorem isWord_of_all {w : List Char} (h : w.all isIdentifierChar = true) : IsWord w :=
  fun c hc => isIdentifierChar_iff.1 (List.all_eq_true.1 h c hc)

theorem isWord_ofNat (n : Nat) : IsWord (Decimal.ofNat n) := by
  intro c hc
  rw [← isIdentifierChar_iff, isIdentifierChar, Char.isAlphanum, Decimal.isDigit_of_mem_ofNat hc]
  simp

/-- The shaft of an arrow goes with the name in front of it. -/
theorem IsWord.shaft {w : List Char} (h : IsWord w) : IsWord (w ++ ['-']) := by
  intro c hc
  rcases List.mem_append.1 hc with hc | hc
  · exact h c hc
  · rw [List.mem_singleton.1 hc, ← isIdentifierChar_iff]
    decide

theorem Relation.sign_mem (op : Relation) : op.sign ∈ Phrase.signs := by
  cases op <;> decide

theorem Term.legible_phrase {t : Term} (h : (Place.term t).Worded) : t.phrase.Legible := by
  have hempty : IsWord [] := isWord_of_all rfl
  induction t with
  | literal q => exact isWord_ofNat q.toNat
  | blockNumber => exact isWord_of_all (by decide)
  | stakeOf a => exact ⟨isWord_of_all (by decide), h.name List.mem_cons_self⟩
  | add l r ihl ihr =>
    exact ⟨hempty, ihl (h.of_field List.mem_cons_self), by decide,
      ihr (h.of_field (List.mem_cons_of_mem _ List.mem_cons_self))⟩
  | sub l r ihl ihr =>
    exact ⟨hempty, ihl (h.of_field List.mem_cons_self), by decide,
      ihr (h.of_field (List.mem_cons_of_mem _ List.mem_cons_self))⟩
  | weightSet s t | weightPower s t =>
    have hsource : IsWord s.text.toList := h.name List.mem_cons_self
    have htarget : IsWord t.text.toList := h.name (List.mem_cons_of_mem _ List.mem_cons_self)
    exact ⟨isWord_of_all (by decide), hsource.shaft, by decide, htarget⟩

theorem Predicate.legible_phrase {p : Predicate} (h : (Place.predicate p).Worded) :
    p.phrase.Legible := by
  cases p with
  | maxDelegationDepth d =>
    exact ⟨isWord_of_all (by decide), Term.legible_phrase (h.of_field List.mem_cons_self)⟩
  | permissionExists p | permissionEnabled p =>
    exact ⟨isWord_of_all (by decide), h.name List.mem_cons_self⟩
  | rateLimit m p =>
    have hperiod : (Place.period p).Worded :=
      h.of_field (List.mem_cons_of_mem _ List.mem_cons_self)
    exact ⟨isWord_of_all (by decide), Term.legible_phrase (h.of_field List.mem_cons_self),
      by decide, Term.legible_phrase hperiod.term⟩
  | inactiveUnlessRedelegated => exact isWord_of_all (by decide)

theorem Formula.legible_phrase {f : Formula} (h : (Place.formula f).Worded) :
    f.phrase.Legible := by
  have hempty : IsWord [] := isWord_of_all rfl
  induction f with
  | not f ih => exact ⟨isWord_of_all (by decide), ih (h.of_field List.mem_cons_self)⟩
  | and l r ihl ihr | or l r ihl ihr =>
    exact ⟨hempty, ihl (h.of_field List.mem_cons_self), by decide,
      ihr (h.of_field (List.mem_cons_of_mem _ List.mem_cons_self))⟩
  | compare op l r =>
    exact ⟨hempty, Term.legible_phrase (h.of_field List.mem_cons_self), op.sign_mem,
      Term.legible_phrase (h.of_field (List.mem_cons_of_mem _ List.mem_cons_self))⟩
  | base p => exact Predicate.legible_phrase (h.of_field List.mem_cons_self)

/-! ## Constraints -/

theorem Constraint.toList_display (c : Constraint) :
    c.display.toList = c.permission.text.toList ++ ':' :: ' ' :: c.body.phrase.chars := by
  rw [← c.body.toList_display]
  simp [display]

/-- Constraints whose names are made of characters of identifiers read the same only if they are
the same. -/
theorem Constraint.display_eq_iff {c d : Constraint} (hc : (Place.constraint c).Worded)
    (hd : (Place.constraint d).Worded) : c.display = d.display ↔ c = d := by
  refine ⟨fun h => ?_, congrArg display⟩
  have hcolon : ∀ cs : List Char, ∀ ch ∈ (':' :: cs).head?, ¬ IsNameChar ch := by
    intro cs ch hch
    rw [← isIdentifierChar_iff, ← Option.mem_some_iff.1 hch]
    decide
  have htexts := congrArg String.toList h
  rw [toList_display, toList_display] at htexts
  rcases append_inj_of_words (hc.name List.mem_cons_self) (hd.name List.mem_cons_self)
    (hcolon _) (hcolon _) htexts with ⟨hpermission, hbody⟩
  rw [List.cons.injEq, List.cons.injEq] at hbody
  have hphrases : c.body.phrase = d.body.phrase :=
    Phrase.eq_of_chars
      (Formula.legible_phrase (hc.of_field (List.mem_cons_of_mem _ List.mem_cons_self)))
      (Formula.legible_phrase (hd.of_field (List.mem_cons_of_mem _ List.mem_cons_self)))
      hbody.2.2
  cases c
  cases d
  rw [Constraint.mk.injEq]
  exact ⟨PermId.ext (String.toList_inj.1 hpermission), Formula.phrase_inj hphrases⟩

/-- Two weights whose texts differ only in the side of the arrow that a hyphen stands on. -/
theorem Constraint.display_ne_of_hyphens :
    (Place.constraint ⟨⟨"p"⟩, .compare .gt (.weightSet ⟨"a-"⟩ ⟨"b"⟩) .blockNumber⟩).Worded ∧
      (Place.constraint ⟨⟨"p"⟩, .compare .gt (.weightSet ⟨"a"⟩ ⟨"-b"⟩) .blockNumber⟩).Worded ∧
      display ⟨⟨"p"⟩, .compare .gt (.weightSet ⟨"a-"⟩ ⟨"b"⟩) .blockNumber⟩ ≠
        display ⟨⟨"p"⟩, .compare .gt (.weightSet ⟨"a"⟩ ⟨"-b"⟩) .blockNumber⟩ := by
  have hone : (Place.constraint
      ⟨⟨"p"⟩, .compare .gt (.weightSet ⟨"a-"⟩ ⟨"b"⟩) .blockNumber⟩).Worded :=
    Limits.worded_of_check (show Limits.standard.check _ = none by decide)
  have hother : (Place.constraint
      ⟨⟨"p"⟩, .compare .gt (.weightSet ⟨"a"⟩ ⟨"-b"⟩) .blockNumber⟩).Worded :=
    Limits.worded_of_check (show Limits.standard.check _ = none by decide)
  exact ⟨hone, hother, (display_eq_iff hone hother).not.2 (by decide)⟩

end Mandate
