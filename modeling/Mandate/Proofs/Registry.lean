import Mandate.Proofs.Maps
import Mandate.Registry

/-!
# Sound registries

The index of permissions agrees with the registered constraints: a permission stands for an identity
if and only if the constraint under that identity has the permission.

Main results:

- Definition `Registry.Sound`: the invariant.
- Theorem `Registry.get?_erase`, `Registry.get?_insert`: the constraints after a change.
- Theorems `Registry.Sound.erase`, `Registry.Sound.insert`: the invariant after a change.
- Definition `Registry.Owning`: the half of the invariant that two constraints under one identity
  cannot break.
-/

namespace Mandate
namespace Registry

variable {r : Registry} {id : ConstraintId} {c : Constraint}

/-- A permission stands for the identity of the constraint that has it. -/
def Sound (r : Registry) : Prop :=
  ∀ permission id, r.owner? permission = some id ↔
    ∃ c, r.get? id = some c ∧ c.permission = permission

theorem sound_empty : ({} : Registry).Sound := by
  intro permission id
  simp [owner?, get?]

theorem get?_insert (r : Registry) (id : ConstraintId) (c : Constraint) (other : ConstraintId) :
    (r.insert id c).get? other = if other = id then some c else r.get? other :=
  getElem?_insert_eq _ _ _ _

theorem owner?_insert (r : Registry) (id : ConstraintId) (c : Constraint) (permission : PermId) :
    (r.insert id c).owner? permission =
      if permission = c.permission then some id else r.owner? permission :=
  getElem?_insert_eq _ _ _ _

theorem get?_erase (r : Registry) (id other : ConstraintId) :
    (r.erase id).get? other = if other = id then none else r.get? other := by
  unfold erase
  cases hget : r.get? id with
  | none =>
    by_cases hother : other = id
    · rw [if_pos hother, hother]
      exact hget
    · rw [if_neg hother]
  | some c => exact getElem?_erase_eq _ _ _

/-- The permission of every registered constraint stands for its identity; other permissions may
still stand for identities that are gone. -/
def Owning (r : Registry) : Prop :=
  ∀ id c, r.get? id = some c → r.owner? c.permission = some id

theorem owning_empty : ({} : Registry).Owning := by
  intro id c hget
  simp [get?] at hget

theorem Owning.erase (h : r.Owning) (id : ConstraintId) : (r.erase id).Owning := by
  intro other d hd
  rw [get?_erase] at hd
  by_cases hother : other = id
  · simp [hother] at hd
  · rw [if_neg hother] at hd
    have howner := h other d hd
    unfold Registry.erase
    cases hget : r.get? id with
    | none => exact howner
    | some c =>
      dsimp only
      split
      · next hgone =>
        have hne : d.permission ≠ c.permission := by
          intro heq
          rw [heq, hgone, Option.some.injEq] at howner
          exact hother howner.symm
        exact (getElem?_erase_eq _ _ _).trans ((if_neg hne).trans howner)
      · exact howner

/-- A constraint may be inserted if no other one has its permission. -/
theorem Owning.insert (h : r.Owning)
    (honly : ∀ other d, r.get? other = some d → d.permission = c.permission → other = id) :
    (r.insert id c).Owning := by
  intro other d hd
  rw [get?_insert] at hd
  rw [owner?_insert]
  by_cases hother : other = id
  · rw [if_pos hother, Option.some.injEq] at hd
    rw [if_pos (by rw [hd]), hother]
  · rw [if_neg hother] at hd
    rw [if_neg fun hsame => hother (honly other d hd hsame)]
    exact h other d hd

/-- Erasing an identity frees the permission that stands for it. -/
theorem Sound.owner?_erase (h : r.Sound) (hget : r.get? id = some c) (permission : PermId) :
    (r.erase id).owner? permission =
      if permission = c.permission then none else r.owner? permission := by
  have howner : r.owner? c.permission = some id := (h _ _).2 ⟨c, hget, rfl⟩
  have herase : r.erase id = ⟨r.constraints.erase id, r.owners.erase c.permission⟩ := by
    simp [erase, hget, howner]
  rw [herase]
  exact getElem?_erase_eq _ _ _

/-- No permission stands for an identity that is not there. -/
theorem Sound.owner?_ne (h : r.Sound) (hget : r.get? id = none) (permission : PermId) :
    r.owner? permission ≠ some id := by
  intro howner
  rcases (h permission id).1 howner with ⟨c, hc, -⟩
  rw [hget] at hc
  cases hc

theorem Sound.erase (h : r.Sound) (id : ConstraintId) : (r.erase id).Sound := by
  cases hget : r.get? id with
  | none =>
    have hsame : r.erase id = r := by simp [Registry.erase, hget]
    rw [hsame]
    exact h
  | some c =>
    intro permission other
    rw [h.owner?_erase hget, get?_erase]
    by_cases hother : other = id
    · -- the permission of the constraint that has gone is free
      rw [if_pos hother]
      by_cases hpermission : permission = c.permission
      · simp [hpermission]
      · rw [if_neg hpermission]
        simp only [reduceCtorEq, false_and, exists_false, iff_false]
        intro howner
        rcases (h permission other).1 howner with ⟨d, hd, hpermission'⟩
        rw [hother, hget] at hd
        cases hd
        exact hpermission hpermission'.symm
    · rw [if_neg hother, ← h permission other]
      by_cases hpermission : permission = c.permission
      · -- the permission stood for the identity that has gone, and for no other one
        have howner : r.owner? permission = some id := (h _ _).2 ⟨c, hget, hpermission.symm⟩
        have hne : id ≠ other := fun heq => hother heq.symm
        rw [if_pos hpermission, howner]
        simp [hne]
      · rw [if_neg hpermission]

/-- A constraint may be inserted under a new identity if its permission is free. -/
theorem Sound.insert (h : r.Sound) (hnew : r.get? id = none)
    (hfree : r.owner? c.permission = none) : (r.insert id c).Sound := by
  intro permission other
  rw [owner?_insert, get?_insert]
  by_cases hother : other = id
  · rw [if_pos hother, hother]
    by_cases hpermission : permission = c.permission
    · simp [hpermission]
    · rw [if_neg hpermission]
      have hne := h.owner?_ne hnew permission
      simp [hne, eq_comm, hpermission]
  · rw [if_neg hother, ← h permission other]
    by_cases hpermission : permission = c.permission
    · have hne : id ≠ other := fun heq => hother heq.symm
      simp [hpermission, hfree, hne]
    · rw [if_neg hpermission]

end Registry
end Mandate
