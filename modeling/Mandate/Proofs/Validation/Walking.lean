import Mandate.Proofs.Validation.Rules

/-!
# The walk through a constraint

The walk looks at the places in pre-order, but for one rule: whether a period is a constant is asked
when the walk has left the period.  So it reports the first violation in pre-order, or one within a
period that is no constant.

Main results:

- Definition `Limits.Reports`: what a walk reports, given all violations in pre-order.
- Theorem `Limits.checkTerm_eq`: within a term the first violation is reported.
- Theorem `Limits.reports_walk`: what the walk through a constraint reports.
- Theorems `Limits.check_eq_none_iff_faults`, `Limits.split_of_check`: the same for the check.
-/

namespace Mandate
namespace Limits

variable {limits : Limits} {path : Path} {place : Place} {seen depth after : Nat}

/-- The violations in a place: its own, then those within it. -/
theorem faults_preorder : limits.faults seen (place.preorder path) =
    limits.faultsAt path seen place ++
      limits.faults (seen + if place.isNode then 1 else 0) (place.inside path) := by
  rw [Place.preorder_eq, faults]

section Fields

variable {left right : Place} {field other : String}

/-- The violations within a place with one field. -/
theorem faults_one (h : place.fields = [(field, left)]) : limits.faults seen (place.inside path) =
    limits.faults seen (left.preorder (path ++ [field])) := by
  simp [Place.inside, h]

/-- The violations within a place with two fields. -/
theorem faults_two (h : place.fields = [(field, left), (other, right)]) :
    limits.faults seen (place.inside path) =
      limits.faults seen (left.preorder (path ++ [field])) ++
        limits.faults (seen + left.nodeCount) (right.preorder (path ++ [other])) := by
  simp [Place.inside, h, faults_append, Place.nodesIn_preorder]

end Fields

theorem length_child (hdepth : path.length = depth) (field : String) :
    (path ++ [field]).length = depth + 1 := by
  simp [hdepth]

/-! ## Terms -/

/-- The outcome of a walk that comes upon the given violations in this order, and has seen so many
nodes if there are none. -/
def first (faults : List Violation) (after : Nat) : Step :=
  match faults with
  | [] => .ok after
  | v :: _ => .error v

/-- Two walks in a row. -/
theorem first_bind {faults more : List Violation} {between : Nat} {next : Nat → Step}
    (h : next between = first more after) :
    (first faults between >>= next) = first (faults ++ more) after := by
  cases faults with
  | nil => exact h
  | cons v rest => rfl

theorem enter_eq (hdepth : path.length = depth) :
    limits.enter path depth seen = first (limits.entryFaults path seen) (seen + 1) := by
  unfold enter entryFaults
  rw [hdepth]
  split_ifs <;> rfl

theorem checkName_eq (limits : Limits) (path : Path) (field s : String) (seen : Nat) :
    limits.checkName path field s seen =
      first (limits.faults seen ((Place.name s).preorder (path ++ [field]))) seen := by
  rw [Place.preorder_name]
  unfold checkName
  cases hreason : checkIdentifier limits.maxIdentifier s <;>
    simp [faults, faultsAt, nameFaults, hreason, first]

/-- Within a term the walk reports the first violation. -/
theorem checkTerm_eq {t : Term} (hdepth : path.length = depth) :
    limits.checkTerm path depth seen t =
      first (limits.faults seen ((Place.term t).preorder path)) (seen + t.nodeCount) := by
  induction t generalizing path depth seen with
  | literal q =>
    rw [checkTerm, enter_eq hdepth, faults_preorder, faultsAt, List.append_assoc]
    refine first_bind ?_
    cases hfits : q.fits <;>
      simp [literalFaults, hfits, first, Place.inside, Place.fields, Term.fields, faults,
        Term.nodeCount]
  | blockNumber =>
    rw [checkTerm, enter_eq hdepth, faults_preorder, faultsAt, List.append_assoc]
    exact first_bind rfl
  | stakeOf a =>
    rw [checkTerm, enter_eq hdepth, faults_preorder, faultsAt, List.append_assoc]
    refine first_bind ?_
    dsimp only [literalFaults]
    rw [List.nil_append, faults_one rfl, checkName_eq]
    rfl
  | add l r ihl ihr | sub l r ihl ihr =>
    rw [checkTerm, enter_eq hdepth, faults_preorder, faultsAt, List.append_assoc]
    refine first_bind ?_
    dsimp only [literalFaults]
    rw [List.nil_append, faults_two rfl, ihl (length_child hdepth "left")]
    refine first_bind ?_
    rw [ihr (length_child hdepth "right"), Term.nodeCount, ← Nat.add_assoc, ← Nat.add_assoc]
    rfl
  | weightSet s t | weightPower s t =>
    rw [checkTerm, enter_eq hdepth, faults_preorder, faultsAt, List.append_assoc]
    refine first_bind ?_
    dsimp only [literalFaults]
    rw [List.nil_append, faults_two rfl, checkName_eq]
    refine first_bind ?_
    rw [checkName_eq]
    rfl

/-! ## Periods -/

/-- The one violation is that a period is no constant, and the other one lies within this period. -/
def Postponed (w v : Violation) : Prop :=
  ∃ path field rest, w = .period path ∧ v.path = path ++ field :: rest

/-- What a walk reports where all violations are the given ones in pre-order, and so many nodes have
been seen if there are none: the first violation, apart from periods within which it lies. -/
def Reports (faults : List Violation) (after : Nat) : Step → Prop
  | .ok seen => faults = [] ∧ seen = after
  | .error v => ∃ early late, faults = early ++ v :: late ∧ ∀ w ∈ early, Postponed w v

theorem reports_first (faults : List Violation) (after : Nat) :
    Reports faults after (first faults after) := by
  cases faults with
  | nil => exact ⟨rfl, rfl⟩
  | cons v late => exact ⟨[], late, rfl, by simp⟩

/-- Two walks in a row. -/
theorem Reports.bind {faults more : List Violation} {between : Nat} {step : Step}
    {next : Nat → Step} (h : Reports faults between step)
    (hnext : Reports more after (next between)) :
    Reports (faults ++ more) after (step >>= next) := by
  cases step with
  | ok seen =>
    rcases h with ⟨rfl, rfl⟩
    exact hnext
  | error v =>
    rcases h with ⟨early, late, rfl, hearly⟩
    exact ⟨early, late ++ more, by rw [List.append_assoc, List.cons_append], hearly⟩

/-- What is wrong within a place has a longer path. -/
theorem path_of_mem_faults_inside {v : Violation}
    (h : v ∈ limits.faults seen (place.inside path)) :
    ∃ field rest, v.path = path ++ field :: rest := by
  rcases mem_faults_iff.1 h with ⟨before, part, after, hplaces, -⟩
  have hmem : (v.path, part) ∈ place.inside path := by
    rw [hplaces]
    exact List.mem_append_right before List.mem_cons_self
  rcases Place.mem_inside_iff.1 hmem with ⟨x, -, hpart⟩
  rcases Place.mem_preorder_iff.1 hpart with ⟨rest, hpath, -⟩
  exact ⟨x.1, rest, by rw [hpath, List.append_assoc, List.singleton_append]⟩

/-- Whether a period is a constant is asked at the end of the walk through it. -/
theorem reports_period {t : Term} (hdepth : path.length = depth) :
    Reports (limits.faults seen ((Place.period t).preorder path)) (seen + t.nodeCount) (do
      let seen ← limits.checkTerm path depth seen t
      if isPeriod t then .ok seen else .error (.period path)) := by
  rw [checkTerm_eq hdepth, faults_preorder, faults_preorder, faultsAt, faultsAt]
  generalize hown : limits.entryFaults path seen ++ literalFaults path t = own
  -- the same fields, so the same violations within the period
  have hsame : (Place.period t).inside path = (Place.term t).inside path := rfl
  have hnode : (Place.period t).isNode = (Place.term t).isNode := rfl
  rw [hsame, hnode]
  generalize hinner : limits.faults _ _ = inner
  cases own with
  | cons v late => exact ⟨[], _, rfl, by simp⟩
  | nil =>
    cases inner with
    | nil =>
      cases hperiod : isPeriod t with
      | true => simp [Reports, first, periodFaults, hperiod, bind, Except.bind]
      | false => exact ⟨[], [], by simp [periodFaults, hperiod], by simp⟩
    | cons v late =>
      have hv : ∃ field rest, v.path = path ++ field :: rest :=
        path_of_mem_faults_inside (hinner ▸ List.mem_cons_self)
      rcases hv with ⟨field, rest, hpath⟩
      refine ⟨periodFaults path t, late, rfl, ?_⟩
      intro w hw
      exact ⟨path, field, rest, (mem_periodFaults_iff.1 hw).2, hpath⟩

/-! ## The whole walk -/

theorem reports_checkPredicate {p : Predicate} (hdepth : path.length = depth) :
    Reports (limits.faults seen ((Place.predicate p).preorder path)) (seen + p.nodeCount)
      (limits.checkPredicate path depth seen p) := by
  rw [checkPredicate, enter_eq hdepth, faults_preorder, faultsAt]
  refine (reports_first _ _).bind ?_
  cases p with
  | maxDelegationDepth d =>
    dsimp only
    rw [faults_one rfl, checkTerm_eq (length_child hdepth "depth"), Predicate.nodeCount,
      ← Nat.add_assoc]
    exact reports_first _ _
  | permissionExists p | permissionEnabled p =>
    dsimp only
    rw [faults_one rfl, checkName_eq]
    exact reports_first _ _
  | rateLimit m p =>
    dsimp only
    rw [faults_two rfl, checkTerm_eq (length_child hdepth "maxOperations"), Predicate.nodeCount,
      ← Nat.add_assoc, ← Nat.add_assoc]
    exact (reports_first _ _).bind (reports_period (length_child hdepth "period"))
  | inactiveUnlessRedelegated => exact ⟨rfl, rfl⟩

theorem reports_checkFormula {f : Formula} (hdepth : path.length = depth) :
    Reports (limits.faults seen ((Place.formula f).preorder path)) (seen + f.nodeCount)
      (limits.checkFormula path depth seen f) := by
  induction f generalizing path depth seen with
  | not f ih =>
    rw [checkFormula, enter_eq hdepth, faults_preorder, faultsAt]
    refine (reports_first _ _).bind ?_
    rw [faults_one rfl, Formula.nodeCount, ← Nat.add_assoc]
    exact ih (length_child hdepth "body")
  | and l r ihl ihr | or l r ihl ihr =>
    rw [checkFormula, enter_eq hdepth, faults_preorder, faultsAt]
    refine (reports_first _ _).bind ?_
    rw [faults_two rfl, Formula.nodeCount, ← Nat.add_assoc, ← Nat.add_assoc]
    exact (ihl (length_child hdepth "left")).bind (ihr (length_child hdepth "right"))
  | compare op l r =>
    rw [checkFormula, enter_eq hdepth, faults_preorder, faultsAt]
    refine (reports_first _ _).bind ?_
    dsimp only
    rw [faults_two rfl, checkTerm_eq (length_child hdepth "left"), Formula.nodeCount,
      ← Nat.add_assoc, ← Nat.add_assoc]
    refine (reports_first _ _).bind ?_
    rw [checkTerm_eq (length_child hdepth "right")]
    exact reports_first _ _
  | base p =>
    rw [checkFormula, enter_eq hdepth, faults_preorder, faultsAt]
    refine (reports_first _ _).bind ?_
    rw [faults_one rfl, Formula.nodeCount, ← Nat.add_assoc]
    exact reports_checkPredicate (length_child hdepth "body")

/-- The walk through a constraint: its permission first, then its body. -/
theorem reports_walk (limits : Limits) (c : Constraint) :
    Reports (limits.faults 0 c.places) c.body.nodeCount (limits.walk c) := by
  have hplaces : c.places = ([], .constraint c) :: ((Place.name c.permission.text).preorder
      ([] ++ ["permId"]) ++ (Place.formula c.body).preorder ["body"]) := by
    rw [c.places_eq, Place.preorder_name]
    rfl
  have hbody : Reports (limits.faults 0 ((Place.formula c.body).preorder ["body"]))
      (0 + c.body.nodeCount) (limits.checkFormula ["body"] 1 0 c.body) := reports_checkFormula rfl
  rw [hplaces, faults, faults_append]
  unfold walk
  rw [checkName_eq]
  refine (reports_first _ _).bind ?_
  simpa [Place.preorder_name, Place.nodesIn_cons, Place.nodesIn_nil, Place.isNode] using hbody

variable {c : Constraint} {v : Violation}

/-- A constraint passes if and only if it has no violation. -/
theorem check_eq_none_iff_faults : limits.check c = none ↔ limits.faults 0 c.places = [] := by
  have hreports := limits.reports_walk c
  unfold check
  cases hwalk : limits.walk c with
  | ok seen =>
    rw [hwalk] at hreports
    simp [hreports.1]
  | error v =>
    rw [hwalk] at hreports
    rcases hreports with ⟨early, late, hfaults, -⟩
    simp [hfaults]

/-- The violation that is reported is the first one, apart from periods within which it lies. -/
theorem split_of_check (h : limits.check c = some v) :
    ∃ early late, limits.faults 0 c.places = early ++ v :: late ∧
      ∀ w ∈ early, Postponed w v := by
  have hreports := limits.reports_walk c
  unfold check at h
  cases hwalk : limits.walk c with
  | ok seen => simp [hwalk] at h
  | error w =>
    rw [hwalk] at h hreports
    rw [Option.some.injEq] at h
    exact h ▸ hreports

end Limits
end Mandate
