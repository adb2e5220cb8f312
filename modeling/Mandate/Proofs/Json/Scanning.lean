import Mathlib.Tactic.SplitIfs
import Mandate.Json.Printer

/-!
# Scanning what is written

The texts of tokens can be told apart when they stand one after the other, as long as no two
scalars do: a text ends at its closing quote, whatever characters it has, and a number ends where
something else begins.

Main results:

- Definition `Ends`: no number goes on with the text.
- Theorem `numeral?_ofInt`: integers are read as they are written.
- Theorem `textUnits_escaped`: so are the characters of a text.
- Definition `Token.Exact`, theorem `Token.next_chars`: the tokens that are read as they are written.
- Definition `Legible`, theorem `Token.scan_chars`: the same for many tokens.
-/

namespace Mandate

/-- The numeral of a positive number has no leading zero. -/
theorem Decimal.eq_zero_of_head? {n : Nat} (h : (Decimal.ofNat n).head? = some '0') : n = 0 := by
  induction n using Nat.strongRecOn with
  | ind n ih =>
    unfold Decimal.ofNat at h ih
    rw [Nat.toDigits_eq_if (by decide)] at h
    split at h
    · simpa using h
    · next hlarge =>
      have hne : Nat.toDigits 10 (n / 10) ≠ [] := Nat.toDigits_ne_nil
      rw [List.head?_append, Option.or_of_isSome (by simp [hne])] at h
      have hzero := ih (n / 10) (by omega) h
      omega

/-- A numeral starts with a digit. -/
theorem Decimal.exists_cons_ofNat (n : Nat) :
    ∃ d ds, Decimal.ofNat n = d :: ds ∧ d.isDigit = true := by
  cases hdigits : Decimal.ofNat n with
  | nil => exact (Decimal.ofNat_ne_nil n hdigits).elim
  | cons d ds =>
    have hmem : d ∈ Decimal.ofNat n := by rw [hdigits]; exact List.mem_cons_self
    exact ⟨d, ds, rfl, Decimal.isDigit_of_mem_ofNat hmem⟩

/-- The numeral of an integer starts with a sign or a digit. -/
theorem Decimal.exists_cons_ofInt (i : Int) :
    ∃ c cs, Decimal.ofInt i = c :: cs ∧ (c = '-' ∨ c.isDigit = true) := by
  cases i with
  | ofNat n =>
    rcases Decimal.exists_cons_ofNat n with ⟨d, ds, hcons, hd⟩
    exact ⟨d, ds, hcons, Or.inr hd⟩
  | negSucc n => exact ⟨'-', _, rfl, Or.inl rfl⟩

namespace Json

/-! ## Numbers -/

/-- No number goes on with the text. -/
def Ends (cs : List Char) : Prop :=
  ∀ c ∈ cs.head?, c.isDigit = false ∧ c ≠ '.' ∧ c ≠ 'e' ∧ c ≠ 'E'

theorem digits_append {ds rest : List Char} (hds : ∀ c ∈ ds, c.isDigit = true)
    (hrest : ∀ c ∈ rest.head?, c.isDigit = false) : digits (ds ++ rest) = (ds, rest) := by
  unfold digits
  rw [List.takeWhile_append_of_pos hds, List.dropWhile_append_of_pos hds]
  cases rest with
  | nil => simp
  | cons c rest =>
    have hc := hrest c rfl
    simp [hc]

theorem fractionPart_of_ends {rest : List Char} (h : Ends rest) :
    fractionPart rest = some (none, rest) := by
  unfold fractionPart
  split
  · exact ((h '.' rfl).2.1 rfl).elim
  · rfl

theorem exponentPart_of_ends {rest : List Char} (h : Ends rest) :
    exponentPart rest = some (none, rest) := by
  cases rest with
  | nil => rfl
  | cons c rest =>
    rcases h c rfl with ⟨-, -, hlower, hupper⟩
    simp [exponentPart, hlower, hupper]

/-- A whole number is read as it is written. -/
theorem numeral?_ofNat (n : Nat) {rest : List Char} (hrest : Ends rest) :
    numeral? (Decimal.ofNat n ++ rest) = some (⟨false, Decimal.ofNat n, none, none⟩, rest) ∧
      numeral? ('-' :: (Decimal.ofNat n ++ rest)) =
        some (⟨true, Decimal.ofNat n, none, none⟩, rest) := by
  have hdigits := digits_append (fun c hc => Decimal.isDigit_of_mem_ofNat (n := n) hc)
    fun c hc => (hrest c hc).1
  rcases Decimal.exists_cons_ofNat n with ⟨d, ds, hcons, hd⟩
  have hzero : d = '0' → ds = [] := by
    rintro rfl
    have hn : n = 0 := Decimal.eq_zero_of_head? (by rw [hcons]; rfl)
    rw [hn] at hcons
    exact (List.cons.inj hcons).2.symm
  have hsign : d ≠ '-' := by
    rintro rfl
    exact absurd hd (by decide)
  rw [hcons, List.cons_append] at hdigits
  rw [hcons, List.cons_append]
  have hfraction := fractionPart_of_ends hrest
  have hexponent := exponentPart_of_ends hrest
  constructor
  · simpa [numeral?, hsign, hdigits, hfraction, hexponent] using hzero
  · simpa [numeral?, hdigits, hfraction, hexponent] using hzero

/-- Integers are read as they are written. -/
theorem numeral?_ofInt {i : Int} (h : fits i = true) {rest : List Char} (hrest : Ends rest) :
    ∃ n, numeral? (Decimal.ofInt i ++ rest) = some (n, rest) ∧ n.value = .integer i := by
  have hdigits : ∀ n, Nat.ofDigitChars 10 (Decimal.ofNat n) 0 = n :=
    fun _ => Nat.ofDigitChars_ten_toDigits
  cases i with
  | ofNat n =>
    refine ⟨_, (numeral?_ofNat n hrest).1, ?_⟩
    have hvalue : (Numeral.mk false (Decimal.ofNat n) none none).integer? = some (.ofNat n) := by
      simp only [Numeral.integer?, hdigits, Bool.false_and, Bool.not_false, Bool.and_true]
      exact if_pos h
    rw [Numeral.value, hvalue]
  | negSucc n =>
    refine ⟨_, (numeral?_ofNat (n + 1) hrest).2, ?_⟩
    have hvalue : (Numeral.mk true (Decimal.ofNat (n + 1)) none none).integer? =
        some (.negSucc n) := by
      simp only [Numeral.integer?, hdigits]
      exact if_pos (by simpa [Int.negSucc_eq] using h)
    rw [Numeral.value, hvalue]

/-! ## Texts -/

/-- The code unit of a control character, as four digits. -/
theorem codeUnit?_hexPair {n : Nat} (h : n < 0x20) :
    codeUnit? '0' '0' (Nat.digitChar (n / 16)) (Nat.digitChar (n % 16)) = some n := by
  have hall : ∀ m < 0x20,
      codeUnit? '0' '0' (Nat.digitChar (m / 16)) (Nat.digitChar (m % 16)) = some m := by decide
  exact hall n h

section Texts

variable {c e : Char} {cs rest : List Char} {units : List TextUnit}

theorem textUnits_escape (he : e ≠ 'u') (hc : escaped? e = some c)
    (h : textUnits cs = some (units, rest)) :
    textUnits ('\\' :: e :: cs) = some (.char c :: units, rest) := by
  rw [textUnits.eq_def]
  simp [he, hc, h]

theorem textUnits_code (hc : c.toNat < 0x20) (h : textUnits cs = some (units, rest)) :
    textUnits (['\\', 'u', '0', '0'] ++ hexPair c.toNat ++ cs) =
      some (.code c.toNat :: units, rest) := by
  rw [textUnits.eq_def]
  simp [hexPair, codeUnit?_hexPair hc, h]

theorem textUnits_plain (hquote : c ≠ '"') (hslash : c ≠ '\\') (hc : ¬ c.toNat < 0x20)
    (h : textUnits cs = some (units, rest)) :
    textUnits (c :: cs) = some (.char c :: units, rest) := by
  rw [textUnits.eq_def]
  simp [hquote, hslash, hc, h]

end Texts

/-- A character is read as it is written inside a text. -/
theorem exists_unit (c : Char) :
    ∃ unit, (∀ units, joinUnits (unit :: units) = (joinUnits units).map (c :: ·)) ∧
      ∀ cs units rest, textUnits cs = some (units, rest) →
        textUnits (escapedChar c ++ cs) = some (unit :: units, rest) := by
  have hchar : ∀ units, joinUnits (.char c :: units) = (joinUnits units).map (c :: ·) :=
    fun _ => rfl
  unfold escapedChar
  split_ifs with hquote hslash hback hfeed hline hreturn htab hcontrol
  · exact ⟨.char c, hchar, fun _ _ _ => textUnits_escape (by decide) (by rw [hquote]; rfl)⟩
  · exact ⟨.char c, hchar, fun _ _ _ => textUnits_escape (by decide) (by rw [hslash]; rfl)⟩
  · exact ⟨.char c, hchar, fun _ _ _ => textUnits_escape (by decide) (hback ▸ rfl)⟩
  · exact ⟨.char c, hchar, fun _ _ _ => textUnits_escape (by decide) (hfeed ▸ rfl)⟩
  · exact ⟨.char c, hchar, fun _ _ _ => textUnits_escape (by decide) (hline ▸ rfl)⟩
  · exact ⟨.char c, hchar, fun _ _ _ => textUnits_escape (by decide) (hreturn ▸ rfl)⟩
  · exact ⟨.char c, hchar, fun _ _ _ => textUnits_escape (by decide) (htab ▸ rfl)⟩
  · refine ⟨.code c.toNat, ?_, fun _ _ _ => textUnits_code hcontrol⟩
    intro units
    have hhigh : isHighHalf c.toNat = false := by simp [isHighHalf]; omega
    have hlow : isLowHalf c.toNat = false := by simp [isLowHalf]; omega
    rw [joinUnits.eq_def]
    simp [hhigh, hlow]
  · exact ⟨.char c, hchar, fun _ _ _ => textUnits_plain hquote hslash hcontrol⟩

/-- The characters of a text are read as they are written. -/
theorem textUnits_escaped (s rest : List Char) :
    ∃ units, textUnits (s.flatMap escapedChar ++ '"' :: rest) = some (units, rest) ∧
      joinUnits units = some s := by
  induction s with
  | nil => exact ⟨[], textUnits.eq_def _, rfl⟩
  | cons c s ih =>
    rcases ih with ⟨units, hunits, hjoined⟩
    rcases exists_unit c with ⟨unit, hunit, hescaped⟩
    refine ⟨unit :: units, ?_, ?_⟩
    · rw [List.flatMap_cons, List.append_assoc]
      exact hescaped _ _ _ hunits
    · rw [hunit, hjoined, Option.map_some]

/-! ## Single tokens -/

/-- The token is read as it is written: its text is one, or its number is one of those that
documents keep. -/
def Token.Exact : Token → Prop
  | .text s => s ≠ none
  | .scalar (.integer i) => fits i = true
  | .scalar (.text _) | .scalar (.array _) | .scalar (.object _) => False
  | _ => True

/-- The token is a scalar. -/
def Token.isScalar : Token → Bool
  | .scalar _ => true
  | _ => false

theorem next_quoted (s rest : List Char) :
    Token.next (quotedChars s ++ rest) = some (.text (some (String.ofList s)), rest) := by
  rcases textUnits_escaped s rest with ⟨units, hunits, hjoined⟩
  simp [Token.next, quotedChars, hunits, hjoined]

/-- A text that starts with a sign or a digit starts with a number. -/
theorem next_number {c : Char} (hc : c = '-' ∨ c.isDigit = true) (rest : List Char) :
    Token.next (c :: rest) =
      (numeral? (c :: rest)).map fun (n, rest) => (.scalar n.value, rest) := by
  have hne : ∀ d : Char, d ≠ '-' → d.isDigit = false → c ≠ d := by
    rintro d hsign hdigit rfl
    rcases hc with rfl | hc
    · exact hsign rfl
    · rw [hdigit] at hc
      cases hc
  simp only [Token.next, if_neg (hne '[' (by decide) (by decide)),
    if_neg (hne ']' (by decide) (by decide)), if_neg (hne '\x7b' (by decide) (by decide)),
    if_neg (hne '\x7d' (by decide) (by decide)), if_neg (hne ',' (by decide) (by decide)),
    if_neg (hne ':' (by decide) (by decide)), if_neg (hne '"' (by decide) (by decide)),
    if_neg (hne 'n' (by decide) (by decide)), if_neg (hne 't' (by decide) (by decide)),
    if_neg (hne 'f' (by decide) (by decide))]

theorem next_integer {i : Int} (h : fits i = true) {rest : List Char} (hrest : Ends rest) :
    Token.next (Decimal.ofInt i ++ rest) = some (.scalar (.integer i), rest) := by
  rcases numeral?_ofInt h hrest with ⟨n, hnumeral, hvalue⟩
  rcases Decimal.exists_cons_ofInt i with ⟨c, cs, hcons, hc⟩
  rw [hcons, List.cons_append] at hnumeral ⊢
  rw [next_number hc, hnumeral]
  simp only [Option.map_some, hvalue]

/-- A number with a fraction. -/
theorem next_real {rest : List Char} (hrest : Ends rest) :
    Token.next (scalarChars .real ++ rest) = some (.scalar .real, rest) := by
  have hwhole : digits ('0' :: '.' :: '0' :: rest) = (['0'], '.' :: '0' :: rest) := rfl
  have hzero : ∀ c ∈ ['0'], c.isDigit = true := by simp
  have hfraction : digits ('0' :: rest) = (['0'], rest) :=
    digits_append hzero fun c hc => (hrest c hc).1
  have hnumeral : numeral? ('0' :: '.' :: '0' :: rest) =
      some (⟨false, ['0'], some ['0'], none⟩, rest) := by
    simp [numeral?, hwhole, fractionPart, hfraction, exponentPart_of_ends hrest]
  exact (next_number (Or.inr rfl) _).trans (congrArg (Option.map _) hnumeral)

/-- A number that is too large for every reader. -/
theorem next_void {rest : List Char} (hrest : Ends rest) :
    Token.next (scalarChars .void ++ rest) = some (.scalar .void, rest) := by
  have hwhole : digits ('1' :: 'e' :: '9' :: '9' :: '9' :: rest) =
      (['1'], 'e' :: '9' :: '9' :: '9' :: rest) := rfl
  have hnines : ∀ c ∈ ['9', '9', '9'], c.isDigit = true := by simp
  have hexponent : digits ('9' :: '9' :: '9' :: rest) = (['9', '9', '9'], rest) :=
    digits_append hnines fun c hc => (hrest c hc).1
  have hnumeral : numeral? ('1' :: 'e' :: '9' :: '9' :: '9' :: rest) =
      some (⟨false, ['1'], none, some (false, ['9', '9', '9'])⟩, rest) := by
    simp [numeral?, hwhole, fractionPart, exponentPart, hexponent]
  exact (next_number (Or.inr rfl) _).trans (congrArg (Option.map _) hnumeral)

/-- A token is read as it is written, whatever comes next, but a scalar has to end there. -/
theorem Token.next_chars {t : Token} (h : t.Exact) {rest : List Char}
    (hrest : t.isScalar = true → Ends rest) : Token.next (t.chars ++ rest) = some (t, rest) := by
  cases t with
  | opening b => cases b <;> rfl
  | closing b => cases b <;> rfl
  | comma => rfl
  | colon => rfl
  | text s =>
    cases s with
    | none => exact (h rfl).elim
    | some s => rw [Token.chars, next_quoted, String.ofList_toList]
  | scalar j =>
    cases j with
    | null => rfl
    | bool b => cases b <;> rfl
    | integer i => exact next_integer h (hrest rfl)
    | real => exact next_real (hrest rfl)
    | void => exact next_void (hrest rfl)
    | text s => exact h.elim
    | array items => exact h.elim
    | object members => exact h.elim

/-! ## Many tokens -/

/-- The tokens are read as they are written, and no two scalars stand side by side. -/
def Legible : List Token → Prop
  | [] => True
  | t :: ts =>
    t.Exact ∧ (t.isScalar = true → ∀ u ∈ ts.head?, u.isScalar = false) ∧ Legible ts

/-- No number goes on with a token that is no scalar. -/
theorem ends_chars {t : Token} (h : t.isScalar = false) (rest : List Char) :
    Ends (t.chars ++ rest) := by
  have hends : ∀ c cs, (c.isDigit = false ∧ c ≠ '.' ∧ c ≠ 'e' ∧ c ≠ 'E') → Ends (c :: cs) := by
    intro c cs hc d hd
    rw [List.head?_cons, Option.mem_some_iff] at hd
    rwa [← hd]
  cases t with
  | opening b => cases b <;> exact hends _ _ (by decide)
  | closing b => cases b <;> exact hends _ _ (by decide)
  | comma => exact hends _ _ (by decide)
  | colon => exact hends _ _ (by decide)
  | text s => cases s <;> exact hends _ _ (by decide)
  | scalar j => cases h

/-- The text of a token does not start with white space. -/
theorem exists_cons_chars {t : Token} (h : t.Exact) :
    ∃ c cs, t.chars = c :: cs ∧ isSpace c = false := by
  cases t with
  | opening b => cases b <;> exact ⟨_, _, rfl, by decide⟩
  | closing b => cases b <;> exact ⟨_, _, rfl, by decide⟩
  | comma => exact ⟨_, _, rfl, by decide⟩
  | colon => exact ⟨_, _, rfl, by decide⟩
  | text s => cases s <;> exact ⟨_, _, rfl, by decide⟩
  | scalar j =>
    cases j with
    | null => exact ⟨_, _, rfl, by decide⟩
    | bool b => cases b <;> exact ⟨_, _, rfl, by decide⟩
    | integer i =>
      rcases Decimal.exists_cons_ofInt i with ⟨c, cs, hcons, hc⟩
      refine ⟨c, cs, hcons, ?_⟩
      rw [Bool.eq_false_iff]
      intro hspace
      simp only [isSpace, Bool.or_eq_true, beq_iff_eq] at hspace
      rcases hspace with ((rfl | rfl) | rfl) | rfl <;> exact absurd hc (by decide)
    | real => exact ⟨_, _, rfl, by decide⟩
    | void => exact ⟨_, _, rfl, by decide⟩
    | text s => exact h.elim
    | array items => exact h.elim
    | object members => exact h.elim

theorem length_le_chars {ts : List Token} (h : Legible ts) :
    ts.length ≤ (ts.flatMap Token.chars).length := by
  induction ts with
  | nil => exact Nat.le_refl _
  | cons t ts ih =>
    rcases exists_cons_chars h.1 with ⟨c, cs, hcons, -⟩
    have hrest := ih h.2.2
    rw [List.flatMap_cons, hcons, List.length_append, List.length_cons, List.length_cons]
    omega

/-- Tokens that are legible are read as they are written. -/
theorem scanUpTo_chars {ts : List Token} (h : Legible ts) {bound : Nat}
    (hbound : ts.length < bound) :
    Token.scanUpTo bound (ts.flatMap Token.chars) = some ts := by
  induction ts generalizing bound with
  | nil =>
    cases bound with
    | zero => cases hbound
    | succ bound => rfl
  | cons t ts ih =>
    cases bound with
    | zero => cases hbound
    | succ bound =>
      have hends : t.isScalar = true → Ends (ts.flatMap Token.chars) := by
        intro hscalar
        cases ts with
        | nil => simp [Ends]
        | cons u ts => exact ends_chars (h.2.1 hscalar u rfl) _
      have hnext := Token.next_chars h.1 hends
      have hrest := ih h.2.2 (Nat.lt_of_succ_lt_succ hbound)
      rcases exists_cons_chars h.1 with ⟨c, cs, hcons, hspace⟩
      rw [hcons, List.cons_append] at hnext
      rw [List.flatMap_cons, hcons, List.cons_append, Token.scanUpTo,
        List.dropWhile_cons_of_neg (by simp [hspace])]
      simp only [hnext, hrest, Option.map_some]

theorem Token.scan_chars {ts : List Token} (h : Legible ts) :
    Token.scan (ts.flatMap Token.chars) = some ts :=
  scanUpTo_chars h (Nat.lt_succ_of_le (length_le_chars h))

end Json
end Mandate
