import Mandate.Proofs.Identifier
import Mandate.Proofs.Validation.Walking

/-!
# Which constraints are admissible

The check lets through exactly the well-formed constraints: those whose body is neither too high nor
too large, whose names are identifiers, whose literals lie in the evaluation range, and whose
periods are constants that are not negative.

Main results:

- Definition `Limits.Admits`: the well-formed constraints.
- Theorem `Limits.admits_iff`: they are those that break no rule at any place.
- Theorem `Limits.check_eq_none_iff`: they are those that pass the check.
-/

namespace Mandate

/-- The constraint is well formed within the limits.  Names are those of the permission and of all
permissions and accounts in the body; literals are those of the body, of its limits and of its
periods. -/
structure Limits.Admits (limits : Limits) (c : Constraint) : Prop where
  depth : c.body.depth ≤ limits.maxDepth
  nodes : c.body.nodeCount ≤ limits.maxNodes
  names : ∀ path s, c.follow? path = some (.name s) → IsIdentifier limits.maxIdentifier s
  literals : ∀ path place q, c.follow? path = some place → place.term? = some (.literal q) →
    q.toNat < rangeEnd
  periods : ∀ path t, c.follow? path = some (.period t) → ∃ n, t.constantValue? = some n ∧ 0 ≤ n

/-! ## Depth -/

namespace Place

/-- No node among the places lies deeper than the limit. -/
def Within (limit : Nat) (places : List (Path × Place)) : Prop :=
  ∀ x ∈ places, x.2.isNode = true → x.1.length ≤ limit

variable {limit : Nat}

theorem within_cons {x : Path × Place} {places : List (Path × Place)} :
    Within limit (x :: places) ↔ (x.2.isNode = true → x.1.length ≤ limit) ∧ Within limit places :=
  List.forall_mem_cons

theorem within_inside_iff {path : Path} {place : Place} :
    Within limit (place.inside path) ↔
      ∀ x ∈ place.fields, Within limit (x.2.preorder (path ++ [x.1])) :=
  List.forall_mem_flatMap

/-- The height of a node says how deep the nodes in it lie; names are no nodes. -/
theorem within_preorder {path : Path} {place : Place} (hplace : ∀ c, place ≠ .constraint c) :
    Within limit (place.preorder path) ↔ place.height ≤ limit + 1 - path.length := by
  induction place using fields_induction generalizing path with
  | step place ih =>
    have hfields : Within limit (place.inside path) ↔
        ∀ x ∈ place.fields, x.2.height ≤ limit - path.length := by
      rw [within_inside_iff]
      refine forall₂_congr fun x hx => ?_
      rw [ih x hx fun _ => ne_constraint_of_mem_fields x hx, List.length_append,
        List.length_singleton, Nat.add_sub_add_right]
    rw [preorder_eq, within_cons, hfields]
    by_cases hnode : place.isNode = true
    · have hpos : 0 < place.height := height_pos hnode
      by_cases hlength : path.length ≤ limit
      · rw [← height_le_iff hnode]
        simp [hlength, Nat.sub_add_comm hlength]
      · simp only [hnode, hlength, true_implies, false_and, false_iff]
        omega
    · cases place with
      | constraint c => exact absurd rfl (hplace c)
      | name s => simp [isNode, fields, height]
      | _ => exact absurd rfl hnode

end Place

theorem Constraint.within_places_iff {c : Constraint} {limit : Nat} :
    Place.Within limit c.places ↔ c.body.depth ≤ limit := by
  rw [c.places_eq, Place.within_cons, Place.within_cons, Place.within_preorder (by simp)]
  simp [Place.isNode, Place.height]

/-! ## Well-formed constraints -/

namespace Limits

variable {limits : Limits} {c : Constraint}

/-- What is well formed breaks no rule. -/
theorem Admits.not_breaks (h : limits.Admits c) (v : Violation) : ¬ limits.Breaks c v := by
  intro hbreaks
  rcases hbreaks with ⟨before, place, after, hplaces, hrule⟩
  have hfollow : c.follow? v.path = some place := Constraint.follow?_of_split hplaces
  cases v with
  | identifier path reason =>
    rcases hrule with ⟨s, rfl, hreason⟩
    rw [checkIdentifier_eq_none_iff.2 (h.names _ s hfollow)] at hreason
    cases hreason
  | depth path limit =>
    rcases hrule with ⟨hnode, hdeep, -⟩
    have hwithin : path.length ≤ limits.maxDepth :=
      Constraint.within_places_iff.2 h.depth _ (Constraint.mem_places_iff.2 hfollow) hnode
    omega
  | nodes path limit =>
    rcases hrule with ⟨hnode, hmany, -⟩
    have hcount : Place.nodesIn c.places ≤ limits.maxNodes := c.nodesIn_places ▸ h.nodes
    rw [hplaces, Place.nodesIn_append, Place.nodesIn_cons, if_pos hnode] at hcount
    omega
  | literal path q =>
    exact absurd (h.literals _ place q hfollow hrule.1) (Nat.not_lt.2 hrule.2)
  | period path =>
    rcases hrule with ⟨t, rfl, hperiod⟩
    rcases h.periods _ t hfollow with ⟨n, hn, hpos⟩
    exact absurd hpos (Int.not_le.2 (hperiod n hn))

/-- The well-formed constraints are those that break no rule at any place. -/
theorem admits_iff : limits.Admits c ↔ ∀ v, ¬ limits.Breaks c v := by
  refine ⟨Admits.not_breaks, fun h => ⟨?_, ?_, ?_, ?_, ?_⟩⟩
  · rw [← Constraint.within_places_iff]
    intro x hx hnode
    by_contra hdeep
    refine h (.depth x.1 limits.maxDepth) (breaks_of_follow? (Constraint.mem_places_iff.1 hx) ?_)
    exact fun _ => ⟨hnode, Nat.lt_of_not_le hdeep, rfl⟩
  · rw [← c.nodesIn_places]
    by_contra hmany
    rcases Place.exists_split_of_lt_nodesIn (Nat.lt_of_not_le hmany) with
      ⟨before, x, after, hplaces, hnode, hbefore⟩
    exact h (.nodes x.1 limits.maxNodes)
      ⟨before, x.2, after, hplaces, hnode, Nat.le_of_eq hbefore.symm, rfl⟩
  · intro path s hfollow
    rw [← checkIdentifier_eq_none_iff]
    cases hreason : checkIdentifier limits.maxIdentifier s with
    | none => rfl
    | some reason =>
      refine (h (.identifier path reason) (breaks_of_follow? hfollow ?_)).elim
      exact fun _ => ⟨s, rfl, hreason⟩
  · intro path place q hfollow hliteral
    by_contra hlarge
    exact h (.literal path q)
      (breaks_of_follow? hfollow fun _ => ⟨hliteral, Nat.le_of_not_lt hlarge⟩)
  · intro path t hfollow
    by_contra hperiod
    refine h (.period path) (breaks_of_follow? hfollow fun _ => ⟨t, rfl, fun n hn => ?_⟩)
    exact Int.not_le.1 fun hpos => hperiod ⟨n, hn, hpos⟩

/-- What passes the check is well formed. -/
theorem admits_of_check (h : limits.check c = none) : limits.Admits c := by
  refine admits_iff.2 fun v hv => ?_
  rw [breaks_iff_mem_faults, check_eq_none_iff_faults.1 h] at hv
  cases hv

/-- The check lets through exactly the well-formed constraints. -/
theorem check_eq_none_iff (limits : Limits) (c : Constraint) :
    limits.check c = none ↔ limits.Admits c := by
  rw [check_eq_none_iff_faults, admits_iff, List.eq_nil_iff_forall_not_mem]
  simp only [breaks_iff_mem_faults]

end Limits
end Mandate
