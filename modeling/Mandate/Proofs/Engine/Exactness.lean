import Mandate.Proofs.Analysis.Reading
import Mandate.Proofs.Engine.Meaning
import Mandate.Proofs.Kleene

/-!
# Exact answers

The evaluation of a constraint leaves numbers of more than 127 bits, and sums and differences beyond
the evaluation range, without a value.  The exact meaning of a constraint is over all integers.  A
decided answer is the exact one, whatever overflows on the way: what is left without a value never
turns the connectives to a wrong side.  Where nothing overflows the two agree also on what the facts
leave undecided.

Main results:

- Definitions `Term.exact`, `Predicate.exact`, `Formula.exact`, `Constraint.exact`: the meaning over
  all integers.
- Definition `Facts.InRange`: nothing that evaluation comes upon is beyond its range.
- Theorem `Formula.exact_of_evaluate`: a decided answer is exact.
- Theorem `Formula.evaluate_eq_exact`: within the range evaluation is exact.
- Theorem `Engine.values_exact`: the same for circuits, and for the roots of an engine after a run.
-/

namespace Mandate

/-! ## The meaning over all integers -/

/-- The number that a key has in the table, however large. -/
def Facts.amount (facts : Facts) (key : FactKey) : Option Int := do
  let value ← facts key
  let q ← value.uint?
  some q.toNat

/-- The value of a term over all integers. -/
def Term.exact (facts : Facts) : Term → Option Int
  | .literal q => some q.toNat
  | .add l r => do some ((← l.exact facts) + (← r.exact facts))
  | .sub l r => do some ((← l.exact facts) - (← r.exact facts))
  | leaf => do facts.amount (← FactKey.ofTerm? leaf)

/-- The truth of a predicate over all integers.  It reads the same fact as ever; the period of a
rate limit only chooses it. -/
def Predicate.exact (facts : Facts) (owner : PermId) (p : Predicate) : Option Bool := do
  let key ← FactKey.ofPredicate? owner p
  match p with
  | .maxDelegationDepth limit | .rateLimit limit _ =>
    let n ← facts.amount key
    let bound ← limit.exact facts
    some (n ≤ bound)
  | _ => facts.truth key

/-- The truth of a formula over all integers. -/
def Formula.exact (facts : Facts) (owner : PermId) : Formula → Option Bool
  | .not f => Kleene.not (f.exact facts owner)
  | .and l r => Kleene.and (l.exact facts owner) (r.exact facts owner)
  | .or l r => Kleene.or (l.exact facts owner) (r.exact facts owner)
  | .compare op l r => do some (op.holds (← l.exact facts) (← r.exact facts))
  | .base p => p.exact facts owner

/-- The truth of a constraint over all integers; nothing where the facts do not decide it. -/
def Constraint.exact (facts : Facts) (c : Constraint) : Option Bool :=
  c.body.exact facts c.permission

/-! ## Evaluation within its range -/

/-- Nothing is beyond the evaluation range: no literal among the terms, none of the numbers that are
read, and no exact sum or difference. -/
structure Facts.InRange (facts : Facts) (reads : List FactKey) (terms : List Term) : Prop where
  literals : ∀ q, .literal q ∈ terms → q.toNat < rangeEnd
  numbers : ∀ key ∈ reads, ∀ q, facts key = some (.uint q) → q.toNat < rangeEnd
  sums : ∀ l r, .add l r ∈ terms → ∀ n, (Term.add l r).exact facts = some n → inRange n = true
  differences : ∀ l r, .sub l r ∈ terms → ∀ n, (Term.sub l r).exact facts = some n →
    inRange n = true

variable {facts : Facts} {owner : PermId} {key : FactKey}

theorem Facts.InRange.mono {reads more : List FactKey} {terms others : List Term}
    (h : facts.InRange more others) (hreads : reads ⊆ more) (hterms : terms ⊆ others) :
    facts.InRange reads terms where
  literals q hq := h.literals q (hterms hq)
  numbers key hkey := h.numbers key (hreads hkey)
  sums l r ht := h.sums l r (hterms ht)
  differences l r ht := h.differences l r (hterms ht)

/-- What is in range for two operands is so for each of them. -/
theorem Facts.InRange.of_append {reads more : List FactKey} {terms others : List Term}
    (h : facts.InRange (reads ++ more) (terms ++ others)) :
    facts.InRange reads terms ∧ facts.InRange more others :=
  ⟨h.mono (List.subset_append_left reads more) (List.subset_append_left terms others),
    h.mono (List.subset_append_right reads more) (List.subset_append_right terms others)⟩

/-- What is in range for a sum or a difference is so for its operands. -/
theorem Facts.InRange.operands {t l r : Term}
    (h : facts.InRange (l.reads ++ r.reads) (t :: (l.parts ++ r.parts))) :
    facts.InRange l.reads l.parts ∧ facts.InRange r.reads r.parts :=
  (h.mono (List.Subset.refl _) (List.subset_cons_self _ _)).of_append

/-! ## Numbers -/

theorem Facts.amount_of_number {n : Int} (h : facts.number key = some n) :
    facts.amount key = some n := by
  rcases Option.bind_eq_some_iff.1 h with ⟨value, hvalue, h⟩
  rcases Option.bind_eq_some_iff.1 h with ⟨q, hq, h⟩
  have hn : (q.toNat : Int) = n := (checked_eq_some_iff.1 h).2
  simp [Facts.amount, hvalue, hq, hn]

/-- A number that fits takes part in evaluation. -/
theorem Facts.number_eq_amount
    (h : ∀ q, facts key = some (.uint q) → q.toNat < rangeEnd) :
    facts.number key = facts.amount key := by
  unfold Facts.number Facts.amount
  cases hvalue : facts key with
  | none => rfl
  | some value =>
    cases value with
    | uint q => simp [FactValue.uint?, Quantity.value?_eq, Quantity.fits, h q hvalue]
    | bool b => rfl

/-! ## Terms -/

/-- What is computed within the range is the exact result. -/
theorem exact_of_checked {x y x' y' : Option Int} {op : Int → Int → Int} {n : Int}
    (hx : ∀ a, x = some a → x' = some a) (hy : ∀ b, y = some b → y' = some b)
    (h : (do checked (op (← x) (← y))) = some n) : (do some (op (← x') (← y'))) = some n := by
  have hchecked := Kleene.strict_mono hx hy h
  rcases Option.bind_eq_some_iff.1 hchecked with ⟨a, ha, hn⟩
  rcases Option.bind_eq_some_iff.1 hn with ⟨b, hb, hn⟩
  simp [ha, hb, (checked_eq_some_iff.1 hn).2]

/-- A result within the range is computed. -/
theorem checked_eq_exact {x y : Option Int} {op : Int → Int → Int}
    (h : ∀ n, (do some (op (← x) (← y))) = some n → inRange n = true) :
    (do checked (op (← x) (← y))) = (do some (op (← x) (← y))) := by
  cases x with
  | none => rfl
  | some a =>
    cases y with
    | none => rfl
    | some b => exact checked_eq_some_iff.2 ⟨h _ rfl, rfl⟩

/-- The value of a term is the exact one. -/
theorem Term.exact_of_evaluate {t : Term} {n : Int} (h : t.evaluate facts = some n) :
    t.exact facts = some n := by
  induction t generalizing n with
  | literal q => rw [Term.exact, (checked_eq_some_iff.1 h).2]
  | add l r ihl ihr | sub l r ihl ihr => exact exact_of_checked (fun _ => ihl) (fun _ => ihr) h
  | _ => exact Facts.amount_of_number h

/-- Within the range a term has its exact value. -/
theorem Term.evaluate_eq_exact {t : Term} (h : facts.InRange t.reads t.parts) :
    t.evaluate facts = t.exact facts := by
  induction t with
  | literal q =>
    have hfits : q.toNat < rangeEnd := h.literals q (by simp [Term.parts])
    simp [Term.evaluate, Term.exact, Quantity.value?_eq, Quantity.fits, hfits]
  | add l r ihl ihr =>
    rcases h.operands with ⟨hl, hr⟩
    rw [Term.evaluate, ihl hl, ihr hr]
    exact checked_eq_exact (h.sums l r List.mem_cons_self)
  | sub l r ihl ihr =>
    rcases h.operands with ⟨hl, hr⟩
    rw [Term.evaluate, ihl hl, ihr hr]
    exact checked_eq_exact (h.differences l r List.mem_cons_self)
  | _ => exact Facts.number_eq_amount (h.numbers _ (by simp [Term.reads, FactKey.ofTerm?]))

/-! ## Predicates -/

theorem Predicate.exact_of_evaluate {p : Predicate} {b : Bool}
    (h : p.evaluate facts owner = some b) : p.exact facts owner = some b := by
  rcases Option.bind_eq_some_iff.1 h with ⟨key, hkey, h⟩
  refine Option.bind_eq_some_iff.2 ⟨key, hkey, ?_⟩
  cases p with
  | maxDelegationDepth limit | rateLimit limit period =>
    exact Kleene.strict_mono (fun _ => Facts.amount_of_number) (fun _ => Term.exact_of_evaluate) h
  | _ => exact h

theorem Predicate.evaluate_eq_exact {p : Predicate}
    (h : facts.InRange (p.reads owner) p.computed) :
    p.evaluate facts owner = p.exact facts owner := by
  unfold Predicate.evaluate Predicate.exact
  cases hkey : FactKey.ofPredicate? owner p with
  | none => rfl
  | some key =>
    have hnumber : facts.number key = facts.amount key :=
      Facts.number_eq_amount (h.numbers key (by simp [Predicate.reads, hkey]))
    cases p with
    | maxDelegationDepth limit | rateLimit limit period =>
      have hlimit : limit.evaluate facts = limit.exact facts :=
        Term.evaluate_eq_exact (h.mono (by simp [Predicate.reads]) (by simp [Predicate.computed]))
      simp only [Option.bind_eq_bind, Option.bind_some, hnumber, hlimit]
    | _ => rfl

/-! ## Formulas -/

/-- A decided answer is the exact one. -/
theorem Formula.exact_of_evaluate {f : Formula} {b : Bool} (h : f.evaluate facts owner = some b) :
    f.exact facts owner = some b := by
  induction f generalizing b with
  | not f ih => exact Kleene.not_mono (fun _ => ih) h
  | and l r ihl ihr => exact Kleene.and_mono (fun _ => ihl) (fun _ => ihr) h
  | or l r ihl ihr => exact Kleene.or_mono (fun _ => ihl) (fun _ => ihr) h
  | compare op l r =>
    exact Kleene.strict_mono (fun _ => Term.exact_of_evaluate) (fun _ => Term.exact_of_evaluate) h
  | base p => exact Predicate.exact_of_evaluate h

/-- Within the range the answer is the exact one, decided or not. -/
theorem Formula.evaluate_eq_exact {f : Formula} (h : facts.InRange (f.reads owner) f.computed) :
    f.evaluate facts owner = f.exact facts owner := by
  induction f with
  | not f ih => rw [Formula.evaluate, Formula.exact, ih h]
  | and l r ihl ihr | or l r ihl ihr =>
    rcases h.of_append with ⟨hl, hr⟩
    rw [Formula.evaluate, Formula.exact, ihl hl, ihr hr]
  | compare op l r =>
    rcases h.of_append with ⟨hl, hr⟩
    rw [Formula.evaluate, Formula.exact, Term.evaluate_eq_exact hl, Term.evaluate_eq_exact hr]
  | base p => exact Predicate.evaluate_eq_exact h

/-! ## Engines -/

/-- The value is right about the constraint: where it is a truth value it is the exact one, and
where nothing is beyond the range it is the exact truth or, if the facts do not decide that, no
value. -/
structure Constraint.AnsweredBy (c : Constraint) (facts : Facts) (value : Value) : Prop where
  decided : ∀ b, value = .bool b → c.exact facts = some b
  inRange : facts.InRange c.referencedFacts c.body.computed → value = Value.ofBool? (c.exact facts)

theorem Constraint.answeredBy_evaluate (c : Constraint) (facts : Facts) :
    c.AnsweredBy facts (Value.ofBool? (c.evaluate facts)) where
  decided b hb := Formula.exact_of_evaluate (Value.ofBool?_eq_bool_iff.1 hb)
  inRange h := by
    have hreads : c.body.reads c.permission ⊆ c.referencedFacts := fun key hkey =>
      FactKey.mem_sorted_iff.2 hkey
    have hanswer : c.evaluate facts = c.exact facts :=
      Formula.evaluate_eq_exact (h.mono hreads fun _ ht => ht)
    rw [hanswer]

namespace Engine

/-- Decided answers are exact, and all answers are where nothing overflows: those of direct
evaluation, those of the circuit of a constraint on any facts, and those of the roots of an engine
after any run. -/
theorem values_exact :
    (∀ (c : Constraint) (facts : Facts),
        c.AnsweredBy facts (Value.ofBool? (c.evaluate facts))) ∧
      (∀ (c : Constraint) (circuit : Circuit) (facts : Facts), c.Lowers circuit →
        c.AnsweredBy facts (circuit.value facts)) ∧
      ∀ (config : RegistryConfig) (ops : List Operation) (id : ConstraintId) (p : Production),
        Unambiguous ops → ((initial config).run ops).productions[id]? = some p →
        p.constraint.AnsweredBy (Facts.ofList ((initial config).run ops).knownFacts)
          (((initial config).run ops).network.value p.root) := by
  refine ⟨fun c facts => c.answeredBy_evaluate facts, ?_, ?_⟩
  · intro c circuit facts hlowers
    rw [hlowers.value_eq]
    exact c.answeredBy_evaluate facts
  · intro config ops id p hops hp
    rw [(reached config ops hops).1.value_root hp, ofList_knownFacts]
    exact p.constraint.answeredBy_evaluate _

/-- Twice the stake of an account is at least nine, or some permission does not exist. -/
def doubledStake : Constraint :=
  ⟨⟨"p"⟩, .or
    (.compare .gte (.add (.stakeOf ⟨"a"⟩) (.stakeOf ⟨"a"⟩)) (.literal ⟨9, by decide⟩))
    (.not (.base (.permissionExists ⟨"q"⟩)))⟩

/-- The account has the given stake, and the permission does not exist. -/
def staked (stake : Quantity) : Facts
  | .stakeOf _ => some (.uint stake)
  | .permissionExists _ => some (.bool false)
  | _ => none

theorem inRange_staked_three :
    (staked ⟨3, by decide⟩).InRange doubledStake.referencedFacts doubledStake.body.computed where
  literals q hq := by
    simp [doubledStake, Formula.computed, Predicate.computed, Term.parts] at hq
    simp [hq, rangeEnd]
  numbers key hkey q hq := by
    rw [Constraint.referencedFacts, FactKey.mem_sorted_iff] at hkey
    simp [doubledStake, Formula.reads, Predicate.reads, Term.reads, FactKey.ofTerm?,
      FactKey.ofPredicate?] at hkey
    rcases hkey with rfl | rfl
    · simp only [staked, Option.some.injEq, FactValue.uint.injEq] at hq
      simp [← hq, rangeEnd]
    · simp [staked] at hq
  sums l r ht n hn := by
    simp [doubledStake, Formula.computed, Predicate.computed, Term.parts] at ht
    rcases ht with ⟨rfl, rfl⟩
    simp [Term.exact, FactKey.ofTerm?, Facts.amount, staked, FactValue.uint?] at hn
    simp [← hn, inRange, rangeEnd]
  differences l r ht := by
    simp [doubledStake, Formula.computed, Predicate.computed, Term.parts] at ht

/-- A stake whose double is beyond the range leaves one side undecided, and the other side decides.
A small stake is within the range.  The root of a constraint in an engine is right as well. -/
theorem values_exact_doubledStake :
    doubledStake.evaluate (staked ⟨rangeEnd - 1, by decide⟩) = some true ∧
      doubledStake.exact (staked ⟨rangeEnd - 1, by decide⟩) = some true ∧
      doubledStake.Lowers (doubledStake.body.circuit doubledStake.permission) ∧
      (doubledStake.body.circuit doubledStake.permission).value (staked ⟨3, by decide⟩) =
        Value.ofBool? (doubledStake.exact (staked ⟨3, by decide⟩)) ∧
      Unambiguous twoRedelegations ∧
      ∃ p, ((initial {}).run twoRedelegations).productions[
          ConstraintId.derive (redelegation ⟨"p"⟩)]? = some p ∧
        p.constraint.AnsweredBy (Facts.ofList ((initial {}).run twoRedelegations).knownFacts)
          (((initial {}).run twoRedelegations).network.value p.root) := by
  have hdecided : doubledStake.evaluate (staked ⟨rangeEnd - 1, by decide⟩) = some true := by
    decide +kernel
  have hlowers : doubledStake.Lowers (doubledStake.body.circuit doubledStake.permission) :=
    Formula.lowers_circuit (by decide +kernel)
  rcases exists_production_twoRedelegations {} with ⟨p, hp⟩
  refine ⟨hdecided, ?_, hlowers, ?_, unambiguous_twoRedelegations, p, hp, ?_⟩
  · exact (values_exact.1 doubledStake _).decided true (by rw [hdecided, Value.ofBool?])
  · exact (values_exact.2.1 doubledStake _ _ hlowers).inRange inRange_staked_three
  · exact values_exact.2.2 {} twoRedelegations _ p unambiguous_twoRedelegations hp

end Engine
end Mandate
