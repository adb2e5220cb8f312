import Mandate.Proofs.Validation.Places

/-!
# The rules for admissible constraints

What it means that a place of a constraint breaks a rule, said place by place and without a walk
through the constraint, and all violations of a constraint in the pre-order of their places.

Main results:

- Definitions `Limits.BreaksAt`, `Limits.Breaks`: a place breaks the rule that a violation names.
- Definition `Limits.faults`: all violations at a row of places.
- Theorem `Limits.breaks_iff_mem_faults`: the list is complete.
- Theorem `Limits.mem_of_earlier`: it is in the order of the places.
-/

namespace Mandate
namespace Limits

/-- A place with `seen` nodes before it breaks the rule that a violation names.

A name is no identifier, for the given reason.  A node lies too deep, the depth of a node being the
number of names that lead to it.  As many nodes as are allowed come before a node.  A literal is
beyond the evaluation range.  A period is no constant or a negative one. -/
def BreaksAt (limits : Limits) (seen : Nat) (place : Place) : Violation → Prop
  | .identifier _ reason =>
    ∃ s, place = .name s ∧ checkIdentifier limits.maxIdentifier s = some reason
  | .depth path limit =>
    place.isNode = true ∧ limits.maxDepth < path.length ∧ limit = limits.maxDepth
  | .nodes _ limit => place.isNode = true ∧ limits.maxNodes ≤ seen ∧ limit = limits.maxNodes
  | .literal _ q => place.term? = some (.literal q) ∧ rangeEnd ≤ q.toNat
  | .period _ => ∃ t, place = .period t ∧ ∀ n, t.constantValue? = some n → n < 0

/-- The place to which the path of a violation leads breaks the rule that the violation names. -/
def Breaks (limits : Limits) (c : Constraint) (v : Violation) : Prop :=
  ∃ before place after, c.places = before ++ (v.path, place) :: after ∧
    limits.BreaksAt (Place.nodesIn before) place v

/-- A place that breaks a rule whatever the number of nodes before it. -/
theorem breaks_of_follow? {limits : Limits} {c : Constraint} {v : Violation} {place : Place}
    (hfollow : c.follow? v.path = some place) (hrule : ∀ seen, limits.BreaksAt seen place v) :
    limits.Breaks c v := by
  rcases List.append_of_mem (Constraint.mem_places_iff.2 hfollow) with ⟨before, after, hplaces⟩
  exact ⟨before, place, after, hplaces, hrule _⟩

/-! ## All violations -/

/-- The limits that a node at the path exceeds. -/
def entryFaults (limits : Limits) (path : Path) (seen : Nat) : List Violation :=
  (if limits.maxDepth < path.length then [.depth path limits.maxDepth] else []) ++
    if limits.maxNodes < seen + 1 then [.nodes path limits.maxNodes] else []

/-- The fault of a literal. -/
def literalFaults (path : Path) : Term → List Violation
  | .literal q => if q.fits then [] else [.literal path q]
  | _ => []

/-- The fault of a period. -/
def periodFaults (path : Path) (t : Term) : List Violation :=
  if isPeriod t then [] else [.period path]

/-- The faults of a name. -/
def nameFaults (limits : Limits) (path : Path) (s : String) : List Violation :=
  (checkIdentifier limits.maxIdentifier s).toList.map (.identifier path)

/-- All violations at a place with `seen` nodes before it. -/
def faultsAt (limits : Limits) (path : Path) (seen : Nat) : Place → List Violation
  | .constraint _ => []
  | .formula _ | .predicate _ => limits.entryFaults path seen
  | .term t => limits.entryFaults path seen ++ literalFaults path t
  | .period t => limits.entryFaults path seen ++ literalFaults path t ++ periodFaults path t
  | .name s => limits.nameFaults path s

/-- All violations at a row of places with `seen` nodes before it, in the order of the places. -/
def faults (limits : Limits) : (seen : Nat) → List (Path × Place) → List Violation
  | _, [] => []
  | seen, (path, place) :: rest =>
    limits.faultsAt path seen place ++
      limits.faults (seen + if place.isNode then 1 else 0) rest

variable {limits : Limits} {path : Path} {place : Place} {places more : List (Path × Place)}
  {seen : Nat} {v : Violation}

theorem faults_append : limits.faults seen (places ++ more) =
    limits.faults seen places ++ limits.faults (seen + Place.nodesIn places) more := by
  induction places generalizing seen with
  | nil => simp [faults, Place.nodesIn_nil]
  | cons x places ih =>
    rcases x with ⟨path, place⟩
    simp [faults, Place.nodesIn_cons, ih, Nat.add_assoc]

theorem isPeriod_eq_false_iff {t : Term} :
    isPeriod t = false ↔ ∀ n, t.constantValue? = some n → n < 0 := by
  unfold isPeriod
  cases t.constantValue? <;> simp

theorem mem_entryFaults_iff : v ∈ limits.entryFaults path seen ↔
    (limits.maxDepth < path.length ∧ v = .depth path limits.maxDepth) ∨
      (limits.maxNodes ≤ seen ∧ v = .nodes path limits.maxNodes) := by
  simp only [entryFaults, Nat.lt_succ_iff]
  by_cases hdepth : limits.maxDepth < path.length <;> by_cases hnodes : limits.maxNodes ≤ seen <;>
    simp [hdepth, hnodes]

theorem mem_literalFaults_iff {t : Term} : v ∈ literalFaults path t ↔
    ∃ q, t = .literal q ∧ rangeEnd ≤ q.toNat ∧ v = .literal path q := by
  cases t with
  | literal q =>
    by_cases hfits : rangeEnd ≤ q.toNat <;> simp [literalFaults, Quantity.fits, hfits]
  | _ => simp [literalFaults]

theorem mem_periodFaults_iff {t : Term} : v ∈ periodFaults path t ↔
    (∀ n, t.constantValue? = some n → n < 0) ∧ v = .period path := by
  rw [← isPeriod_eq_false_iff]
  cases hperiod : isPeriod t <;> simp [periodFaults, hperiod]

theorem mem_nameFaults_iff {s : String} : v ∈ limits.nameFaults path s ↔
    ∃ reason, checkIdentifier limits.maxIdentifier s = some reason ∧
      v = .identifier path reason := by
  simp [nameFaults, eq_comm]

/-- The list at a place has the violations of all rules that the place breaks. -/
theorem mem_faultsAt_iff : v ∈ limits.faultsAt path seen place ↔
    v.path = path ∧ limits.BreaksAt seen place v := by
  rcases place with c | f | p | t | t | s <;> cases v <;>
    simp [faultsAt, mem_entryFaults_iff, mem_literalFaults_iff, mem_periodFaults_iff,
      mem_nameFaults_iff, BreaksAt, Violation.path, Place.isNode, Place.term?]
  -- the same conditions on both sides, in another order
  all_goals grind

theorem mem_faults_iff : v ∈ limits.faults seen places ↔
    ∃ before place after, places = before ++ (v.path, place) :: after ∧
      limits.BreaksAt (seen + Place.nodesIn before) place v := by
  induction places generalizing seen with
  | nil => simp [faults]
  | cons x places ih =>
    rcases x with ⟨path, place⟩
    rw [faults, List.mem_append, mem_faultsAt_iff, ih]
    constructor
    · intro h
      rcases h with ⟨rfl, hbreaks⟩ | ⟨before, part, after, hplaces, hbreaks⟩
      · exact ⟨[], place, places, rfl, hbreaks⟩
      · refine ⟨(path, place) :: before, part, after, by rw [hplaces, List.cons_append], ?_⟩
        rwa [Place.nodesIn_cons, ← Nat.add_assoc]
    · intro h
      rcases h with ⟨_ | ⟨first, before⟩, part, after, hplaces, hbreaks⟩
      · rw [List.nil_append, List.cons.injEq, Prod.mk.injEq] at hplaces
        rcases hplaces with ⟨⟨rfl, rfl⟩, -⟩
        exact Or.inl ⟨rfl, hbreaks⟩
      · rw [List.cons_append, List.cons.injEq] at hplaces
        rcases hplaces with ⟨rfl, hplaces⟩
        rw [Place.nodesIn_cons, ← Nat.add_assoc] at hbreaks
        exact Or.inr ⟨before, part, after, hplaces, hbreaks⟩

/-- The violations at the places of a constraint are all violations of the constraint. -/
theorem breaks_iff_mem_faults {c : Constraint} :
    limits.Breaks c v ↔ v ∈ limits.faults 0 c.places := by
  simp [Breaks, mem_faults_iff]

/-! ## Order -/

/-- The violations are in the order of their places. -/
theorem pairwise_faults {R : Path → Path → Prop} (h : (places.map Prod.fst).Pairwise R) :
    (limits.faults seen places).Pairwise fun v w => v.path = w.path ∨ R v.path w.path := by
  induction places generalizing seen with
  | nil => simp [faults]
  | cons x places ih =>
    rcases x with ⟨path, place⟩
    rw [List.map_cons, List.pairwise_cons] at h
    rw [faults, List.pairwise_append]
    refine ⟨List.pairwise_of_forall_mem_list ?_, ih h.2, ?_⟩
    · intro v hv w hw
      exact Or.inl ((mem_faultsAt_iff.1 hv).1.trans (mem_faultsAt_iff.1 hw).1.symm)
    · intro v hv w hw
      rcases mem_faults_iff.1 hw with ⟨before, part, after, hplaces, -⟩
      rw [(mem_faultsAt_iff.1 hv).1]
      refine Or.inr (h.1 _ (List.mem_map.2 ⟨(w.path, part), ?_, rfl⟩))
      rw [hplaces]
      exact List.mem_append_right before List.mem_cons_self

/-- A violation at an earlier place stands earlier in the list. -/
theorem mem_of_earlier {c : Constraint} {w : Violation} {early late : List Violation}
    (hfaults : limits.faults 0 c.places = early ++ v :: late) (hw : limits.Breaks c w)
    (hearlier : c.Earlier w.path v.path) : w ∈ early := by
  have horder : (limits.faults 0 c.places).Pairwise
      fun v w => v.path = w.path ∨ c.Earlier v.path w.path :=
    pairwise_faults (List.pairwise_iff_forall_sublist.2 fun hpair => hpair)
  rw [breaks_iff_mem_faults, hfaults, List.mem_append, List.mem_cons] at hw
  rw [hfaults, List.pairwise_append, List.pairwise_cons] at horder
  rcases hw with hw | rfl | hw
  · exact hw
  · exact absurd hearlier hearlier.asymm
  · rcases horder.2.1.1 w hw with heq | hlater
    · rw [heq] at hearlier
      exact absurd hearlier hearlier.asymm
    · exact absurd hearlier hlater.asymm

end Limits
end Mandate
