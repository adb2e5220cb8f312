import Mandate.Proofs.Identifier
import Mandate.Proofs.Validation.Walking

/-!
# Which violation is reported

The violation of a constraint that the check reports is a genuine one: its path leads to the place
at fault, also when it is read from its dotted text and followed in the document, and the place is
at fault in just the way that the violation says.  It is the first violation in pre-order unless it
lies within a period that is no constant; such a period is reported only if nothing within it is
wrong.

Main results:

- Theorem `Limits.postponed_of_earlier`: which violations may come before the reported one.
- Definition `Limits.Explains`: the place is at fault as the violation says.
- Theorem `Limits.check_explains`: the reported violation is a genuine one.
- Theorem `Limits.check_reports_first`: the reported violation is the first one, apart from periods
  within which it lies.
-/

namespace Mandate

/-! ## Parents -/

namespace Place

variable {place part : Place} {field : String}

/-- Whatever has fields and is no constraint is a node. -/
theorem isNode_of_mem_fields (h : (field, part) ∈ place.fields)
    (hplace : ∀ c, place ≠ .constraint c) : place.isNode = true := by
  cases place with
  | constraint c => exact absurd rfl (hplace c)
  | name s => simp [fields] at h
  | _ => rfl

/-- A period stands in the field of a rate limit. -/
theorem mem_fields_period_iff {t : Term} : (field, .period t) ∈ place.fields ↔
    field = "period" ∧ ∃ m, place = .predicate (.rateLimit m t) := by
  rcases place with c | f | p | t | t | s
  · simp [fields]
  · cases f <;> simp [fields, Formula.fields]
  · cases p <;> simp [fields, Predicate.fields, eq_comm]
  · cases t <;> simp [fields, Term.fields]
  · cases t <;> simp [fields, Term.fields]
  · simp [fields]

end Place

namespace Constraint

variable {c : Constraint} {path : Path} {place : Place} {field : String}

/-- Within the body every place lies in a node. -/
theorem exists_parent (h : c.follow? (path ++ [field]) = some place) (hpath : path ≠ []) :
    ∃ parent, c.follow? path = some parent ∧ parent.isNode = true := by
  rcases Place.follow?_concat_iff.1 h with ⟨parent, hparent, hfield⟩
  refine ⟨parent, hparent, Place.isNode_of_mem_fields hfield ?_⟩
  rintro d rfl
  rcases List.eq_nil_or_concat' path with rfl | ⟨above, name, rfl⟩
  · exact hpath rfl
  · rcases Place.follow?_concat_iff.1 hparent with ⟨grandparent, -, hname⟩
    exact Place.ne_constraint_of_mem_fields _ hname rfl

/-- A period lies in a rate limit, and its name is `period`. -/
theorem exists_rateLimit {t : Term} (h : c.follow? path = some (.period t)) :
    ∃ above m, path = above ++ ["period"] ∧
      c.follow? above = some (.predicate (.rateLimit m t)) := by
  rcases List.eq_nil_or_concat' path with rfl | ⟨above, name, rfl⟩
  · cases h
  · rcases Place.follow?_concat_iff.1 h with ⟨parent, hparent, hname⟩
    rcases Place.mem_fields_period_iff.1 hname with ⟨rfl, m, rfl⟩
    exact ⟨above, m, rfl, hparent⟩

end Constraint

namespace Limits

variable {limits : Limits} {c : Constraint} {v w : Violation}

/-! ## What comes before the reported violation -/

/-- The reported violation is one of the constraint. -/
theorem breaks_of_check (h : limits.check c = some v) : limits.Breaks c v := by
  rcases split_of_check h with ⟨early, late, hfaults, -⟩
  rw [breaks_iff_mem_faults, hfaults]
  exact List.mem_append_right early List.mem_cons_self

/-- Only periods within which the reported violation lies come before it. -/
theorem postponed_of_earlier (h : limits.check c = some v) (hw : limits.Breaks c w)
    (hearlier : c.Earlier w.path v.path) : Postponed w v := by
  rcases split_of_check h with ⟨early, late, hfaults, hearly⟩
  exact hearly w (mem_of_earlier hfaults hw hearlier)

/-- The node that is reported as too deep is the first one below the limit: its parent would have
been reported before. -/
theorem length_of_check_depth {path : Path} {limit : Nat}
    (h : limits.check c = some (.depth path limit)) : path.length = limits.maxDepth + 1 := by
  rcases breaks_of_check h with ⟨before, place, after, hplaces, -, hdeep, -⟩
  rw [Violation.path] at hplaces
  have hfollow : c.follow? path = some place := Constraint.follow?_of_split hplaces
  by_contra hlength
  rcases List.eq_nil_or_concat' path with rfl | ⟨above, field, rfl⟩
  · simp at hdeep
  · rw [List.length_append, List.length_singleton] at hdeep hlength
    have habove : above ≠ [] := by
      rintro rfl
      rw [List.length_nil] at hdeep hlength
      omega
    rcases Constraint.exists_parent hfollow habove with ⟨parent, hparent, hnode⟩
    have hbreaks : limits.Breaks c (.depth above limits.maxDepth) :=
      breaks_of_follow? hparent fun _ => ⟨hnode, by omega, rfl⟩
    rcases postponed_of_earlier h hbreaks (Constraint.earlier_of_extends hfollow) with
      ⟨_, _, _, hperiod, -⟩
    cases hperiod

/-- The node that is reported as one too many is the first beyond the limit. -/
theorem nodesIn_of_check_nodes {path : Path} {limit : Nat} {before after : List (Path × Place)}
    {place : Place} (h : limits.check c = some (.nodes path limit))
    (hplaces : c.places = before ++ (path, place) :: after)
    (hmany : limits.maxNodes ≤ Place.nodesIn before) :
    Place.nodesIn before = limits.maxNodes := by
  by_contra hne
  rcases Place.exists_split_of_lt_nodesIn (Nat.lt_of_le_of_ne hmany (Ne.symm hne)) with
    ⟨sooner, x, between, rfl, hnode, hsooner⟩
  have hbreaks : limits.Breaks c (.nodes x.1 limits.maxNodes) :=
    ⟨sooner, x.2, between ++ (path, place) :: after, by simpa [Violation.path] using hplaces, hnode,
      Nat.le_of_eq hsooner.symm, rfl⟩
  have hearlier : c.Earlier x.1 path := Constraint.earlier_of_split hplaces (by simp)
  rcases postponed_of_earlier h hbreaks hearlier with ⟨_, _, _, hperiod, -⟩
  cases hperiod

/-! ## Genuine violations -/

/-- The place, which has the given places before it, is at fault in the way that the violation says.

A name is no identifier for the reason that is given, and a bad character is the first one, with the
bytes before it.  A node lies just below the greatest depth, or has just as many nodes before it as
are allowed.  A literal has the value that is given, beyond the evaluation range.  A period belongs
to a rate limit, and is no constant or a negative one. -/
def Explains (limits : Limits) (c : Constraint) (before : List (Path × Place)) (place : Place) :
    Violation → Prop
  | .identifier _ reason =>
    ∃ s, place = .name s ∧ checkIdentifier limits.maxIdentifier s = some reason ∧
      ∀ bad offset, reason = .invalidChar bad offset →
        ∃ good rest, s.toList = good ++ bad :: rest ∧ (∀ d ∈ good, IsNameChar d) ∧
          ¬ IsNameChar bad ∧ offset = (String.ofList good).utf8ByteSize
  | .depth path limit =>
    place.isNode = true ∧ path.length = limits.maxDepth + 1 ∧ limit = limits.maxDepth
  | .nodes _ limit =>
    place.isNode = true ∧ Place.nodesIn before = limits.maxNodes ∧ limit = limits.maxNodes
  | .literal _ q => place.term? = some (.literal q) ∧ rangeEnd ≤ q.toNat
  | .period path =>
    ∃ above m t, path = above ++ ["period"] ∧ place = .period t ∧
      c.follow? above = some (.predicate (.rateLimit m t)) ∧
      (t.constantValue? = none ∨ ∃ n, t.constantValue? = some n ∧ n < 0)

theorem explains_of_check (h : limits.check c = some v) :
    ∃ before place after, c.places = before ++ (v.path, place) :: after ∧
      limits.Explains c before place v := by
  rcases breaks_of_check h with ⟨before, place, after, hplaces, hrule⟩
  refine ⟨before, place, after, hplaces, ?_⟩
  cases v with
  | identifier path reason =>
    rcases hrule with ⟨s, hs, hreason⟩
    refine ⟨s, hs, hreason, ?_⟩
    rintro bad offset rfl
    exact split_of_checkIdentifier hreason
  | depth path limit => exact ⟨hrule.1, length_of_check_depth h, hrule.2.2⟩
  | nodes path limit =>
    exact ⟨hrule.1, nodesIn_of_check_nodes h hplaces hrule.2.1, hrule.2.2⟩
  | literal path q => exact hrule
  | period path =>
    rcases hrule with ⟨t, rfl, hperiod⟩
    have hfollow : c.follow? path = some (.period t) := Constraint.follow?_of_split hplaces
    rcases Constraint.exists_rateLimit hfollow with ⟨above, m, rfl, habove⟩
    refine ⟨above, m, t, rfl, rfl, habove, ?_⟩
    cases hvalue : t.constantValue? with
    | none => exact Or.inl rfl
    | some n => exact Or.inr ⟨n, rfl, hperiod n hvalue⟩

/-- Every violation that the check reports is genuine, and its path leads to the place at fault,
also if it is read from its dotted text, and also in the document of the constraint. -/
theorem check_explains (h : limits.check c = some v) :
    ∃ before place after, c.places = before ++ (v.path, place) :: after ∧
      c.follow? (Path.ofDotted v.path.display) = some place ∧
      c.toJson.follow? v.path = some place.toJson ∧ limits.Explains c before place v := by
  rcases explains_of_check h with ⟨before, place, after, hplaces, hexplains⟩
  have hfollow : c.follow? v.path = some place := Constraint.follow?_of_split hplaces
  have hpath : v.path ≠ [] := by
    intro hnil
    rw [hnil, Constraint.follow?, Place.follow?_nil, Option.some.injEq] at hfollow
    subst hfollow
    cases v <;> simp [Explains, Place.isNode, Place.term?] at hexplains
  have hdotted : Path.ofDotted v.path.display = v.path :=
    Path.ofDotted_display hpath (Place.point_not_mem_of_follow? hfollow)
  refine ⟨before, place, after, hplaces, ?_, Place.follow?_toJson hfollow, hexplains⟩
  rw [hdotted, hfollow]

/-- A rate limit whose period is no constant, and names no account where it should. -/
def strayPeriod : Constraint :=
  ⟨⟨"p"⟩, .base (.rateLimit (.literal ⟨12, by decide⟩)
    (.add (.stakeOf ⟨"bad id"⟩) (.literal ⟨144, by decide⟩)))⟩

/-- The name of the account is reported, with its path and its bad character. -/
theorem check_explains_strayPeriod :
    Limits.standard.check strayPeriod =
      some (.identifier ["body", "body", "period", "left", "account"] (.invalidChar ' ' 3)) ∧
    ∃ before place after, strayPeriod.places = before ++
        (["body", "body", "period", "left", "account"], place) :: after ∧
      strayPeriod.follow? (Path.ofDotted "body.body.period.left.account") = some place ∧
      strayPeriod.toJson.follow? ["body", "body", "period", "left", "account"] =
        some place.toJson ∧
      Limits.standard.Explains strayPeriod before place
        (.identifier ["body", "body", "period", "left", "account"] (.invalidChar ' ' 3)) := by
  have hcheck : Limits.standard.check strayPeriod =
      some (.identifier ["body", "body", "period", "left", "account"] (.invalidChar ' ' 3)) := by
    decide +kernel
  exact ⟨hcheck, check_explains hcheck⟩

/-! ## First violations -/

/-- If a constraint has violations then one of them is reported, and it is the first in the order of
the places, apart from periods within which it lies. -/
theorem check_reports_first (h : ∃ w, limits.Breaks c w) :
    ∃ v, limits.check c = some v ∧ limits.Breaks c v ∧
      ∀ w, limits.Breaks c w → c.Earlier w.path v.path → Postponed w v := by
  cases hcheck : limits.check c with
  | none =>
    rcases h with ⟨w, hw⟩
    rw [breaks_iff_mem_faults, check_eq_none_iff_faults.1 hcheck] at hw
    cases hw
  | some v =>
    exact ⟨v, rfl, breaks_of_check hcheck, fun w hw hearlier =>
      postponed_of_earlier hcheck hw hearlier⟩

/-- The constraint has a violation, so one is reported. -/
theorem check_reports_first_strayPeriod :
    Limits.standard.Breaks strayPeriod (.period ["body", "body", "period"]) ∧
    ∃ v, Limits.standard.check strayPeriod = some v ∧ Limits.standard.Breaks strayPeriod v ∧
      ∀ w, Limits.standard.Breaks strayPeriod w → strayPeriod.Earlier w.path v.path →
        Postponed w v := by
  have hbreaks : Limits.standard.Breaks strayPeriod (.period ["body", "body", "period"]) :=
    breaks_of_follow? rfl fun _ => ⟨_, rfl, fun n hn => by simp [Term.constantValue?] at hn⟩
  exact ⟨hbreaks, check_reports_first ⟨_, hbreaks⟩⟩

/-- The period is no constant either, and comes before the name within it that is reported. -/
theorem check_strayPeriod_not_first :
    Limits.standard.check strayPeriod =
      some (.identifier ["body", "body", "period", "left", "account"] (.invalidChar ' ' 3)) ∧
    Limits.standard.Breaks strayPeriod (.period ["body", "body", "period"]) ∧
    strayPeriod.Earlier ["body", "body", "period"]
      ["body", "body", "period", "left", "account"] := by
  have hname : strayPeriod.follow? (["body", "body", "period"] ++ "left" :: ["account"]) =
      some (.name "bad id") := rfl
  refine ⟨by decide +kernel, breaks_of_follow? rfl ?_, Constraint.earlier_of_extends hname⟩
  exact fun _ => ⟨_, rfl, fun n hn => by simp [Term.constantValue?] at hn⟩

end Limits
end Mandate
