import Mandate.Analysis.Reads
import Mandate.Network.Circuit
import Mandate.Proofs.Results

/-!
# The circuit of a constraint

The rules by which a constraint becomes a circuit, stated as a relation: comparisons and connectives
stay as they are written, and a predicate becomes the leaf of its fact or the comparison of that
fact with its limit.

Main results:

- Definition `Constraint.Lowers`: the rules.
- Theorems `Constraint.lower_eq_ok_iff`, `Constraint.lower_eq_error_iff`: a constraint is compiled
  into a circuit if and only if the rules allow it, and otherwise does not pass the check.
- Theorem `Constraint.Lowers.value_eq`: the circuit computes the truth of the constraint.
- Theorem `Constraint.Lowers.facts_eq`: the leaves follow the facts that the constraint reads.
-/

namespace Mandate

/-! ## The rules -/

/-- A literal becomes its number, a term that reads a fact the leaf of the fact. -/
inductive Term.Lowers : Term → Circuit → Prop
  | literal {q : Quantity} {n : Int} :
      q.value? = some n → Term.Lowers (.literal q) (.leaf (.literal n))
  | fact {t : Term} {key : FactKey} :
      FactKey.ofTerm? t = some key → Term.Lowers t (.fact key)
  | add {l r : Term} {left right : Circuit} :
      Term.Lowers l left → Term.Lowers r right → Term.Lowers (.add l r) (.binary .add left right)
  | sub {l r : Term} {left right : Circuit} :
      Term.Lowers l left → Term.Lowers r right → Term.Lowers (.sub l r) (.binary .sub left right)

/-- A predicate with a limit becomes `fact ≤ limit`, any other one the leaf of its fact. -/
inductive Predicate.Lowers (owner : PermId) : Predicate → Circuit → Prop
  | maxDelegationDepth {limit : Term} {c : Circuit} :
      limit.Lowers c →
      Predicate.Lowers owner (.maxDelegationDepth limit)
        (.binary (.compare .lte) (.fact (.delegationDepth owner)) c)
  | permissionExists (p : PermId) :
      Predicate.Lowers owner (.permissionExists p) (.fact (.permissionExists p))
  | permissionEnabled (p : PermId) :
      Predicate.Lowers owner (.permissionEnabled p) (.fact (.permissionEnabled p))
  | rateLimit {limit period : Term} {n : Quantity} {c : Circuit} :
      FactKey.period? period = some n → limit.Lowers c →
      Predicate.Lowers owner (.rateLimit limit period)
        (.binary (.compare .lte) (.fact (.operationCount owner n)) c)
  | inactiveUnlessRedelegated :
      Predicate.Lowers owner .inactiveUnlessRedelegated (.fact (.redelegated owner))

/-- Connectives and comparisons stay as they are written. -/
inductive Formula.Lowers (owner : PermId) : Formula → Circuit → Prop
  | not {f : Formula} {c : Circuit} :
      Formula.Lowers owner f c → Formula.Lowers owner (.not f) (.unary .not c)
  | and {l r : Formula} {left right : Circuit} :
      Formula.Lowers owner l left → Formula.Lowers owner r right →
      Formula.Lowers owner (.and l r) (.binary .and left right)
  | or {l r : Formula} {left right : Circuit} :
      Formula.Lowers owner l left → Formula.Lowers owner r right →
      Formula.Lowers owner (.or l r) (.binary .or left right)
  | compare {op : Relation} {l r : Term} {left right : Circuit} :
      l.Lowers left → r.Lowers right →
      Formula.Lowers owner (.compare op l r) (.binary (.compare op) left right)
  | base {p : Predicate} {c : Circuit} :
      p.Lowers owner c → Formula.Lowers owner (.base p) c

/-- The circuit of a constraint is that of its formula, on behalf of its permission. -/
def Constraint.Lowers (c : Constraint) (circuit : Circuit) : Prop :=
  c.body.Lowers c.permission circuit

/-! ## Compiling follows the rules -/

theorem Quantity.fits_iff {q : Quantity} : q.fits = true ↔ ∃ n, q.value? = some n := by
  rw [q.value?_eq]
  by_cases hfits : q.fits = true <;> simp [hfits]

/-- Two checks in a row pass if both do. -/
theorem andThen_eq_ok_iff {x y : Except CompileError Unit} :
    (do x; y) = .ok () ↔ x = .ok () ∧ y = .ok () := by
  rw [bind_eq_ok_iff]
  constructor
  · intro h
    rcases h with ⟨⟨⟩, hx, hy⟩
    exact ⟨hx, hy⟩
  · intro h
    exact ⟨(), h.1, h.2⟩

/-- A term that passes the check is compiled by the rules. -/
theorem Term.lowers_circuit {t : Term} (h : t.check = .ok ()) : t.Lowers t.circuit := by
  induction t with
  | literal q =>
    have hfits : q.fits = true := by
      cases hfits : q.fits with
      | true => rfl
      | false => simp [Term.check, hfits] at h
    rcases Quantity.fits_iff.1 hfits with ⟨n, hn⟩
    rw [Term.circuit, hn]
    exact .literal hn
  | add l r ihl ihr =>
    rcases andThen_eq_ok_iff.1 h with ⟨hl, hr⟩
    exact .add (ihl hl) (ihr hr)
  | sub l r ihl ihr =>
    rcases andThen_eq_ok_iff.1 h with ⟨hl, hr⟩
    exact .sub (ihl hl) (ihr hr)
  | _ => exact .fact rfl

/-- The rules give a term no other circuit, and none without the check. -/
theorem Term.Lowers.passes {t : Term} {c : Circuit} (h : t.Lowers c) :
    t.check = .ok () ∧ c = t.circuit := by
  induction h with
  | @literal q n hq =>
    have hfits : q.fits = true := Quantity.fits_iff.2 ⟨n, hq⟩
    simp [Term.check, Term.circuit, hfits, hq]
  | @fact t key hkey => cases t <;> simp_all [FactKey.ofTerm?, Term.check, Term.circuit]
  | add _ _ ihl ihr =>
    rw [ihl.2, ihr.2]
    exact ⟨andThen_eq_ok_iff.2 ⟨ihl.1, ihr.1⟩, rfl⟩
  | sub _ _ ihl ihr =>
    rw [ihl.2, ihr.2]
    exact ⟨andThen_eq_ok_iff.2 ⟨ihl.1, ihr.1⟩, rfl⟩

theorem Predicate.lowers_circuit {owner : PermId} {p : Predicate} (h : p.check owner = .ok ()) :
    p.Lowers owner (p.circuit owner) := by
  cases p with
  | maxDelegationDepth limit => exact .maxDelegationDepth (Term.lowers_circuit h)
  | rateLimit limit period =>
    cases hperiod : FactKey.period? period with
    | none => simp [Predicate.check, FactKey.ofPredicate?, hperiod] at h
    | some n =>
      have hlimit : limit.check = .ok () := by
        simpa [Predicate.check, FactKey.ofPredicate?, hperiod] using h
      have hcircuit : (Predicate.rateLimit limit period).circuit owner =
          .binary (.compare .lte) (.fact (.operationCount owner n)) limit.circuit := by
        simp [Predicate.circuit, FactKey.ofPredicate?, hperiod]
      rw [hcircuit]
      exact .rateLimit hperiod (Term.lowers_circuit hlimit)
  | permissionExists p => exact .permissionExists p
  | permissionEnabled p => exact .permissionEnabled p
  | inactiveUnlessRedelegated => exact .inactiveUnlessRedelegated

theorem Predicate.Lowers.passes {owner : PermId} {p : Predicate} {c : Circuit}
    (h : p.Lowers owner c) : p.check owner = .ok () ∧ c = p.circuit owner := by
  cases h with
  | maxDelegationDepth hlimit =>
    rcases hlimit.passes with ⟨hcheck, rfl⟩
    exact ⟨hcheck, rfl⟩
  | rateLimit hperiod hlimit =>
    rcases hlimit.passes with ⟨hcheck, rfl⟩
    simp [Predicate.check, Predicate.circuit, FactKey.ofPredicate?, hperiod, hcheck]
  | _ => exact ⟨rfl, rfl⟩

theorem Formula.lowers_circuit {owner : PermId} {f : Formula} (h : f.check owner = .ok ()) :
    f.Lowers owner (f.circuit owner) := by
  induction f with
  | not f ih => exact .not (ih h)
  | and l r ihl ihr =>
    rcases andThen_eq_ok_iff.1 h with ⟨hl, hr⟩
    exact .and (ihl hl) (ihr hr)
  | or l r ihl ihr =>
    rcases andThen_eq_ok_iff.1 h with ⟨hl, hr⟩
    exact .or (ihl hl) (ihr hr)
  | compare op l r =>
    rcases andThen_eq_ok_iff.1 h with ⟨hl, hr⟩
    exact .compare (Term.lowers_circuit hl) (Term.lowers_circuit hr)
  | base p => exact .base (Predicate.lowers_circuit h)

theorem Formula.Lowers.passes {owner : PermId} {f : Formula} {c : Circuit}
    (h : f.Lowers owner c) : f.check owner = .ok () ∧ c = f.circuit owner := by
  induction h with
  | not _ ih => exact ⟨ih.1, congrArg (Circuit.unary .not) ih.2⟩
  | and _ _ ihl ihr =>
    rw [ihl.2, ihr.2]
    exact ⟨andThen_eq_ok_iff.2 ⟨ihl.1, ihr.1⟩, rfl⟩
  | or _ _ ihl ihr =>
    rw [ihl.2, ihr.2]
    exact ⟨andThen_eq_ok_iff.2 ⟨ihl.1, ihr.1⟩, rfl⟩
  | compare hl hr =>
    rcases hl.passes with ⟨hleft, rfl⟩
    rcases hr.passes with ⟨hright, rfl⟩
    exact ⟨andThen_eq_ok_iff.2 ⟨hleft, hright⟩, rfl⟩
  | base hp => exact hp.passes

/-- A constraint is compiled into a circuit if and only if the rules give it that circuit. -/
theorem Constraint.lower_eq_ok_iff (c : Constraint) (circuit : Circuit) :
    c.lower = .ok circuit ↔ c.Lowers circuit := by
  unfold Constraint.lower
  rw [bind_eq_ok_iff]
  constructor
  · intro h
    rcases h with ⟨⟨⟩, hcheck, hcircuit⟩
    cases hcircuit
    exact Formula.lowers_circuit hcheck
  · intro h
    rcases Formula.Lowers.passes h with ⟨hcheck, rfl⟩
    exact ⟨(), hcheck, rfl⟩

/-- A constraint has no circuit if and only if it does not pass the check, and for the reason that the
check finds. -/
theorem Constraint.lower_eq_error_iff (c : Constraint) (reason : CompileError) :
    c.lower = .error reason ↔ c.check = .error reason := by
  unfold Constraint.lower
  cases c.check <;> simp [bind, Except.bind, pure, Except.pure]

/-- A constraint that the rules turn into a circuit passes the check. -/
theorem Constraint.Lowers.check_eq_ok {c : Constraint} {circuit : Circuit} (h : c.Lowers circuit) :
    c.check = .ok () :=
  (Formula.Lowers.passes h).1

/-- A constraint has one circuit at most. -/
theorem Constraint.Lowers.unique {c : Constraint} {left right : Circuit} (hl : c.Lowers left)
    (hr : c.Lowers right) : left = right := by
  have hleft := (c.lower_eq_ok_iff left).2 hl
  rw [(c.lower_eq_ok_iff right).2 hr] at hleft
  exact (Except.ok.inj hleft).symm

/-! ## What the circuit computes -/

theorem Value.ofFact_of_uint {key : FactKey} (hkind : key.kind = .uint) (facts : Facts) :
    Value.ofFact key (facts key) = Value.ofNum? (facts.number key) := by
  unfold Value.ofFact Facts.number
  rw [hkind]
  cases facts key with
  | none => rfl
  | some value => cases value <;> rfl

theorem Value.ofFact_of_bool {key : FactKey} (hkind : key.kind = .bool) (facts : Facts) :
    Value.ofFact key (facts key) = Value.ofBool? (facts.truth key) := by
  unfold Value.ofFact Facts.truth
  rw [hkind]
  cases facts key with
  | none => rfl
  | some value => cases value <;> rfl

theorem FactKey.kind_of_ofTerm? {t : Term} {key : FactKey} (h : FactKey.ofTerm? t = some key) :
    key.kind = .uint := by
  cases t <;> simp [FactKey.ofTerm?] at h <;> subst h <;> rfl

theorem Term.evaluate_of_ofTerm? {t : Term} {key : FactKey} (h : FactKey.ofTerm? t = some key)
    (facts : Facts) : t.evaluate facts = facts.number key := by
  cases t <;> simp [FactKey.ofTerm?] at h <;> subst h <;> rfl

theorem Operator.apply_add (x y : Option Int) :
    Operator.apply .add [Value.ofNum? x, Value.ofNum? y] =
      Value.ofNum? (do checked ((← x) + (← y))) := by
  cases x <;> cases y <;> rfl

theorem Operator.apply_sub (x y : Option Int) :
    Operator.apply .sub [Value.ofNum? x, Value.ofNum? y] =
      Value.ofNum? (do checked ((← x) - (← y))) := by
  cases x <;> cases y <;> rfl

theorem Operator.apply_compare (op : Relation) (x y : Option Int) :
    Operator.apply (.compare op) [Value.ofNum? x, Value.ofNum? y] =
      Value.ofBool? (do some (op.holds (← x) (← y))) := by
  cases x <;> cases y <;> rfl

theorem Value.not_ofBool? (x : Option Bool) :
    (Value.ofBool? x).not = Value.ofBool? (Kleene.not x) := by
  cases x <;> rfl

theorem Value.and_ofBool? (x y : Option Bool) :
    (Value.ofBool? x).and (Value.ofBool? y) = Value.ofBool? (Kleene.and x y) := by
  rcases x with _ | _ | _ <;> rcases y with _ | _ | _ <;> rfl

theorem Value.or_ofBool? (x y : Option Bool) :
    (Value.ofBool? x).or (Value.ofBool? y) = Value.ofBool? (Kleene.or x y) := by
  rcases x with _ | _ | _ <;> rcases y with _ | _ | _ <;> rfl

/-- The circuit of a term computes its number. -/
theorem Term.Lowers.value_eq {t : Term} {c : Circuit} (h : t.Lowers c) (facts : Facts) :
    c.value facts = Value.ofNum? (t.evaluate facts) := by
  induction h with
  | literal hq =>
    rw [Circuit.value, Term.evaluate, hq]
    · rfl
    · simp
  | @fact t key hkey =>
    rw [Circuit.fact, Circuit.value, Value.ofFact_of_uint (FactKey.kind_of_ofTerm? hkey),
      Term.evaluate_of_ofTerm? hkey]
  | add _ _ ihl ihr => rw [Circuit.value, ihl, ihr, Operator.apply_add, Term.evaluate]
  | sub _ _ ihl ihr => rw [Circuit.value, ihl, ihr, Operator.apply_sub, Term.evaluate]

/-- A limit is compared with a fact as a number. -/
theorem Circuit.value_limit {key : FactKey} (hkind : key.kind = .uint) {limit : Term}
    {bound : Circuit} (hbound : limit.Lowers bound) (facts : Facts) :
    (Circuit.binary (.compare .lte) (.fact key) bound).value facts =
      Value.ofBool? (do
        let n ← facts.number key
        let b ← limit.evaluate facts
        some (n ≤ b)) := by
  have hkey : (Circuit.fact key).value facts = Value.ofNum? (facts.number key) :=
    Value.ofFact_of_uint hkind facts
  rw [Circuit.value, hkey, hbound.value_eq, Operator.apply_compare]
  rfl

/-- The circuit of a predicate computes its truth. -/
theorem Predicate.Lowers.value_eq {owner : PermId} {p : Predicate} {c : Circuit}
    (h : p.Lowers owner c) (facts : Facts) :
    c.value facts = Value.ofBool? (p.evaluate facts owner) := by
  cases h with
  | maxDelegationDepth hlimit => exact Circuit.value_limit rfl hlimit facts
  | rateLimit hperiod hlimit =>
    rw [Circuit.value_limit rfl hlimit facts]
    simp [Predicate.evaluate, FactKey.ofPredicate?, hperiod]
  | permissionExists p => exact Value.ofFact_of_bool rfl facts
  | permissionEnabled p => exact Value.ofFact_of_bool rfl facts
  | inactiveUnlessRedelegated => exact Value.ofFact_of_bool rfl facts

theorem Formula.Lowers.value_eq {owner : PermId} {f : Formula} {c : Circuit}
    (h : f.Lowers owner c) (facts : Facts) :
    c.value facts = Value.ofBool? (f.evaluate facts owner) := by
  induction h with
  | not _ ih =>
    rw [Circuit.value, ih, Formula.evaluate]
    exact Value.not_ofBool? _
  | and _ _ ihl ihr =>
    rw [Circuit.value, ihl, ihr, Formula.evaluate]
    exact Value.and_ofBool? _ _
  | or _ _ ihl ihr =>
    rw [Circuit.value, ihl, ihr, Formula.evaluate]
    exact Value.or_ofBool? _ _
  | compare hl hr =>
    rw [Circuit.value, hl.value_eq, hr.value_eq, Formula.evaluate]
    exact Operator.apply_compare _ _ _
  | base hp =>
    rw [Formula.evaluate]
    exact hp.value_eq facts

/-- The circuit computes the truth of the constraint. -/
theorem Constraint.Lowers.value_eq {c : Constraint} {circuit : Circuit} (h : c.Lowers circuit)
    (facts : Facts) : circuit.value facts = Value.ofBool? (c.evaluate facts) :=
  Formula.Lowers.value_eq h facts

/-! ## What the circuit reads -/

theorem Term.Lowers.facts_eq {t : Term} {c : Circuit} (h : t.Lowers c) : c.facts = t.reads := by
  induction h with
  | literal _ => rfl
  | @fact t key hkey => cases t <;> simp [FactKey.ofTerm?] at hkey <;> subst hkey <;> rfl
  | add _ _ ihl ihr => rw [Circuit.facts, ihl, ihr, Term.reads]
  | sub _ _ ihl ihr => rw [Circuit.facts, ihl, ihr, Term.reads]

theorem Predicate.Lowers.facts_eq {owner : PermId} {p : Predicate} {c : Circuit}
    (h : p.Lowers owner c) : c.facts = p.reads owner := by
  cases h with
  | maxDelegationDepth hlimit =>
    rw [Circuit.facts, hlimit.facts_eq]
    rfl
  | rateLimit hperiod hlimit =>
    rw [Circuit.facts, hlimit.facts_eq]
    simp [Predicate.reads, FactKey.ofPredicate?, hperiod, Circuit.fact, Circuit.facts,
      Operator.fact?]
  | _ => rfl

theorem Formula.Lowers.facts_eq {owner : PermId} {f : Formula} {c : Circuit}
    (h : f.Lowers owner c) : c.facts = f.reads owner := by
  induction h with
  | not _ ih => rw [Circuit.facts, ih, Formula.reads]
  | and _ _ ihl ihr => rw [Circuit.facts, ihl, ihr, Formula.reads]
  | or _ _ ihl ihr => rw [Circuit.facts, ihl, ihr, Formula.reads]
  | compare hl hr => rw [Circuit.facts, hl.facts_eq, hr.facts_eq, Formula.reads]
  | base hp => rw [hp.facts_eq, Formula.reads]

theorem FactKey.mem_sorted_iff {keys : List FactKey} {key : FactKey} :
    key ∈ FactKey.sorted keys ↔ key ∈ keys := by
  unfold FactKey.sorted
  rw [Std.TreeSet.mem_toList, Std.TreeSet.mem_ofList]
  simp

/-- The leaves of the circuit follow the facts that the constraint reads. -/
theorem Constraint.Lowers.mem_facts_iff {c : Constraint} {circuit : Circuit} (h : c.Lowers circuit)
    (key : FactKey) : key ∈ circuit.facts ↔ key ∈ c.referencedFacts := by
  rw [Formula.Lowers.facts_eq h, Constraint.referencedFacts, FactKey.mem_sorted_iff]

/-- A circuit computes the same from inputs that agree on its facts. -/
theorem Circuit.value_congr {c : Circuit} {f g : Facts} (h : ∀ fact ∈ c.facts, f fact = g fact) :
    c.value f = c.value g := by
  induction c with
  | leaf op =>
    cases op with
    | fact key => exact congrArg (Value.ofFact key) (h key (by simp [facts, Operator.fact?]))
    | _ => rfl
  | unary op arg ih => rw [value, value, ih h]
  | binary op left right ihl ihr =>
    rw [facts, List.forall_mem_append] at h
    rw [value, value, ihl h.1, ihr h.2]

/-! ## Well-formed circuits -/

/-- Only leaves follow facts. -/
def Circuit.WellFormed : Circuit → Prop
  | leaf _ => True
  | unary op arg => op.fact? = none ∧ arg.WellFormed
  | binary op left right => op.fact? = none ∧ left.WellFormed ∧ right.WellFormed

theorem Term.Lowers.wellFormed {t : Term} {c : Circuit} (h : t.Lowers c) : c.WellFormed := by
  induction h with
  | literal _ => trivial
  | fact _ => trivial
  | add _ _ ihl ihr => exact ⟨rfl, ihl, ihr⟩
  | sub _ _ ihl ihr => exact ⟨rfl, ihl, ihr⟩

theorem Predicate.Lowers.wellFormed {owner : PermId} {p : Predicate} {c : Circuit}
    (h : p.Lowers owner c) : c.WellFormed := by
  cases h with
  | maxDelegationDepth hlimit => exact ⟨rfl, trivial, hlimit.wellFormed⟩
  | rateLimit _ hlimit => exact ⟨rfl, trivial, hlimit.wellFormed⟩
  | _ => trivial

/-- Only the leaves of the circuit of a constraint follow facts. -/
theorem Formula.Lowers.wellFormed {owner : PermId} {f : Formula} {c : Circuit}
    (h : f.Lowers owner c) : c.WellFormed := by
  induction h with
  | not _ ih => exact ⟨rfl, ih⟩
  | and _ _ ihl ihr => exact ⟨rfl, ihl, ihr⟩
  | or _ _ ihl ihr => exact ⟨rfl, ihl, ihr⟩
  | compare hl hr => exact ⟨rfl, hl.wellFormed, hr.wellFormed⟩
  | base hp => exact hp.wellFormed

end Mandate
