import Mandate.Network.Build
import Mandate.Proofs.Network.Lowering
import Mandate.Validation

/-!
# Admissible constraints have circuits

The check for admissible constraints and the check of the compiler walk through a tree on their own.
Whatever the first one lets through passes the second one: its literals lie in the evaluation range,
those of limits and of periods among them, and its periods are constants that name a fact.

Main results:

- Theorem `isPeriod_iff`: a term is let through as a period if and only if it names a fact.
- Theorems `Limits.check_of_checkTerm`, `Limits.check_of_checkPredicate`,
  `Limits.check_of_checkFormula`: what the first walk lets through passes the second one.
- Theorem `Limits.exists_circuit`: an admissible constraint has a circuit, in every network.
-/

namespace Mandate

/-! ## Periods -/

/-- The value of a constant lies in the evaluation range. -/
theorem Term.inRange_of_constantValue? {t : Term} {n : Int} (h : t.constantValue? = some n) :
    inRange n = true := by
  cases t with
  | literal q => exact (checked_eq_some_iff.1 h).2 ▸ (checked_eq_some_iff.1 h).1
  | add l r =>
    rcases Option.bind_eq_some_iff.1 h with ⟨x, -, h⟩
    rcases Option.bind_eq_some_iff.1 h with ⟨y, -, h⟩
    exact (checked_eq_some_iff.1 h).2 ▸ (checked_eq_some_iff.1 h).1
  | sub l r =>
    rcases Option.bind_eq_some_iff.1 h with ⟨x, -, h⟩
    rcases Option.bind_eq_some_iff.1 h with ⟨y, -, h⟩
    exact (checked_eq_some_iff.1 h).2 ▸ (checked_eq_some_iff.1 h).1
  | _ => cases h

/-- A term is let through as a period if and only if a rate limit with that period has a fact. -/
theorem isPeriod_iff {t : Term} :
    Limits.isPeriod t = true ↔ ∃ q, FactKey.period? t = some q := by
  unfold Limits.isPeriod FactKey.period?
  cases hvalue : t.constantValue? with
  | none => simp
  | some n =>
    have hrange : n < rangeEnd := ((inRange_iff n).1 (Term.inRange_of_constantValue? hvalue)).2
    have hbound : rangeEnd < Quantity.bound := by decide
    have hsmall : Quantity.ofNat? n.toNat ≠ none := by
      rw [Ne, Quantity.ofNat?_eq_none_iff]
      omega
    by_cases hn : 0 ≤ n
    · simpa [hn] using Option.ne_none_iff_exists'.1 hsmall
    · simp [hn]

namespace Limits

/-! ## What the walk lets through -/

section Walk

variable {limits : Limits} {path : Path} {depth seen after : Nat}

theorem check_of_checkTerm {t : Term} (h : limits.checkTerm path depth seen t = .ok after) :
    t.check = .ok () := by
  induction t generalizing path depth seen after with
  | literal q =>
    rw [checkTerm] at h
    rcases bind_eq_ok_iff.1 h with ⟨seen', -, h⟩
    cases hfits : q.fits with
    | true => simp [Term.check, hfits]
    | false => simp [hfits] at h
  | add l r ihl ihr =>
    rw [checkTerm] at h
    rcases bind_eq_ok_iff.1 h with ⟨entered, -, h⟩
    rcases bind_eq_ok_iff.1 h with ⟨left, hl, hr⟩
    exact andThen_eq_ok_iff.2 ⟨ihl hl, ihr hr⟩
  | sub l r ihl ihr =>
    rw [checkTerm] at h
    rcases bind_eq_ok_iff.1 h with ⟨entered, -, h⟩
    rcases bind_eq_ok_iff.1 h with ⟨left, hl, hr⟩
    exact andThen_eq_ok_iff.2 ⟨ihl hl, ihr hr⟩
  | _ => rfl

theorem check_of_checkPredicate {owner : PermId} {p : Predicate}
    (h : limits.checkPredicate path depth seen p = .ok after) : p.check owner = .ok () := by
  unfold checkPredicate at h
  rcases bind_eq_ok_iff.1 h with ⟨entered, -, h⟩
  cases p with
  | maxDelegationDepth limit => exact check_of_checkTerm h
  | rateLimit limit period =>
    rcases bind_eq_ok_iff.1 h with ⟨counted, hlimit, h⟩
    rcases bind_eq_ok_iff.1 h with ⟨counted', -, h⟩
    have hperiod : isPeriod period = true := by
      cases hperiod : isPeriod period with
      | true => rfl
      | false => simp [hperiod] at h
    rcases isPeriod_iff.1 hperiod with ⟨q, hq⟩
    simp only [Predicate.check, FactKey.ofPredicate?, hq, Option.map_some]
    exact check_of_checkTerm hlimit
  | _ => rfl

theorem check_of_checkFormula {owner : PermId} {f : Formula}
    (h : limits.checkFormula path depth seen f = .ok after) : f.check owner = .ok () := by
  induction f generalizing path depth seen after with
  | not f ih =>
    rw [checkFormula] at h
    rcases bind_eq_ok_iff.1 h with ⟨entered, -, h⟩
    exact ih h
  | and l r ihl ihr =>
    rw [checkFormula] at h
    rcases bind_eq_ok_iff.1 h with ⟨entered, -, h⟩
    rcases bind_eq_ok_iff.1 h with ⟨left, hl, hr⟩
    exact andThen_eq_ok_iff.2 ⟨ihl hl, ihr hr⟩
  | or l r ihl ihr =>
    rw [checkFormula] at h
    rcases bind_eq_ok_iff.1 h with ⟨entered, -, h⟩
    rcases bind_eq_ok_iff.1 h with ⟨left, hl, hr⟩
    exact andThen_eq_ok_iff.2 ⟨ihl hl, ihr hr⟩
  | compare op l r =>
    rw [checkFormula] at h
    rcases bind_eq_ok_iff.1 h with ⟨entered, -, h⟩
    rcases bind_eq_ok_iff.1 h with ⟨left, hl, hr⟩
    exact andThen_eq_ok_iff.2 ⟨check_of_checkTerm hl, check_of_checkTerm hr⟩
  | base p =>
    rw [checkFormula] at h
    rcases bind_eq_ok_iff.1 h with ⟨entered, -, h⟩
    exact check_of_checkPredicate h

end Walk

variable {limits : Limits} {c : Constraint}

theorem exists_walk_of_check (h : limits.check c = none) : ∃ seen, limits.walk c = .ok seen := by
  unfold check at h
  split at h
  · rename_i seen hwalk
    exact ⟨seen, hwalk⟩
  · cases h

/-- An admissible constraint passes the check of the compiler. -/
theorem check_eq_ok_of_check (h : limits.check c = none) : c.check = .ok () := by
  rcases exists_walk_of_check h with ⟨seen, hwalk⟩
  rcases bind_eq_ok_iff.1 hwalk with ⟨named, -, hbody⟩
  exact check_of_checkFormula hbody

/-- An admissible constraint has a circuit by the rules, none of which makes do with a constant in
the place of a literal or a fact; and this circuit is built in every network. -/
theorem exists_circuit (h : limits.check c = none) :
    ∃ circuit, c.Lowers circuit ∧ ∀ net : Network, net.compile c = .ok (net.build circuit) := by
  have hlower : c.lower = .ok (c.body.circuit c.permission) := by
    unfold Constraint.lower
    rw [check_eq_ok_of_check h]
    rfl
  refine ⟨_, (c.lower_eq_ok_iff _).1 hlower, fun net => ?_⟩
  rw [Network.compile, hlower]

/-! ## What is admitted -/

theorem accept_eq_ok_iff {d : Constraint} :
    limits.accept c = .ok d ↔ d = c ∧ limits.check c = none := by
  unfold accept
  cases limits.check c <;> simp [eq_comm]

/-- A constraint that is admitted, as itself or as a document, is admissible. -/
theorem check_of_decode {text : String} (h : limits.decode text = .ok c) :
    limits.check c = none := by
  unfold decode at h
  split at h
  · rcases accept_eq_ok_iff.1 h with ⟨rfl, hcheck⟩
    exact hcheck
  · cases h

end Limits
end Mandate
