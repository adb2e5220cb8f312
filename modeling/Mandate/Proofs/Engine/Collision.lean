import Mandate.Proofs.Engine.History
import Mandate.Proofs.Engine.Pulling
import Mandate.Scenario

/-!
# Identities that collide

An identity shows no more than the first bytes of a hash, so different constraints may share one.  A
constraint that is registered under such an identity for a permission of its own takes the place of
the other one: what has been recorded about that one is in no history any more, although histories
are retained.

Main results:

- Theorem `history_add_of_free`: the histories after a registration for a free permission.
- Theorem `Chronicled.forgets`: the records about an identity that is taken over are lost.
- Theorem `exists_evaluation`: the first pull of a constraint that is alone leaves one record.
- Theorems `derive_firstSigner_eq`, `forgets_firstSigner`: two constraints that share their identity,
  and what is lost when the second one is registered.
-/

namespace Mandate
namespace Engine

/-- A constraint that is registered for a free permission has the history that has been set aside
for its identity, and no other one. -/
theorem history_add_of_free {e : Engine} {c : Constraint} {circuit : Circuit}
    (hfree : e.registry.owner? c.permission = none) (hlowers : c.Lowers circuit)
    (id : ConstraintId) :
    (e.add c).1.history id =
      if id = ConstraintId.derive c then .ok (e.retired[id]?.getD []) else e.history id := by
  have hretired : (e.add c).1.retired = e.retired.erase (ConstraintId.derive c) := by
    rw [add_of_free hfree hlowers]
    rfl
  unfold history
  rw [productions_add_of_free hfree hlowers, hretired, getElem?_erase_eq]
  by_cases hid : id = ConstraintId.derive c
  · simp only [if_pos hid]
    rw [hid]
    rfl
  · simp only [if_neg hid]

/-- When a constraint is registered for a free permission under an identity that another one has,
the records about that one are in no history any more. -/
theorem Chronicled.forgets {e : Engine} {c : Constraint} {circuit : Circuit} {p : Production}
    (h : e.Chronicled) (hp : e.productions[ConstraintId.derive c]? = some p)
    (hfree : e.registry.owner? c.permission = none) (hlowers : c.Lowers circuit)
    {r : ActivationRecord} (hr : r.id = ConstraintId.derive c) {id : ConstraintId}
    {history : List ActivationRecord} (hhistory : (e.add c).1.history id = .ok history) :
    r ∉ history := by
  intro hmem
  rw [history_add_of_free hfree hlowers] at hhistory
  split at hhistory
  · rename_i hid
    rw [hid, h.apart hp, Except.ok.injEq] at hhistory
    rw [← hhistory] at hmem
    cases hmem
  · rename_i hid
    -- the other histories are about other identities
    exact hid ((h.id_of_history hhistory hmem).symm.trans hr)

/-! ## The first evaluation -/

/-- The plan to pull a constraint after it has been registered first of all. -/
def planOfFirst (c : Constraint) : PullPlan :=
  ⟨ConstraintId.derive c, 1, ((initial {}).add c).1.network.epoch, c.referencedFacts⟩

/-- A constraint is registered first of all, and evaluated. -/
def evaluation (c : Constraint) (news : List FactUpdate) : List Operation :=
  [.add c, .applyPull (planOfFirst c) news 0]

section Evaluation

variable {c : Constraint} {circuit : Circuit}

theorem unambiguous_evaluation (c : Constraint) (news : List FactUpdate) :
    Unambiguous (evaluation c news) := by
  intro d d' hd hd' _
  simp only [evaluation, List.mem_cons, Operation.add.injEq, reduceCtorEq, List.not_mem_nil,
    or_false] at hd hd'
  rw [hd, hd']

/-- The constraint is alone, and its plan is to be pulled. -/
theorem exists_alone (hlowers : c.Lowers circuit) :
    ∃ p : Production, ((initial {}).add c).1.productions.toList = [(ConstraintId.derive c, p)] ∧
      ((initial {}).add c).1.productions[(planOfFirst c).id]? = some p ∧
      p.id = (planOfFirst c).id ∧ p.generation = (planOfFirst c).generation ∧
      p.state = .unknown ∧
      ((initial {}).add c).1.pullPlan (ConstraintId.derive c) = .ok (planOfFirst c) := by
  have hp := (productions_add_of_free (owner?_initial {} _) hlowers (ConstraintId.derive c)).trans
    (if_pos rfl)
  refine ⟨_, ?_, hp, rfl, rfl, rfl, pullPlan_eq_ok_iff.2 ⟨_, hp, rfl⟩⟩
  have hnone : (initial {}).productions[ConstraintId.derive c]? = none := by
    simp [initial]
  rw [add_of_free (owner?_initial {} _) hlowers]
  exact List.perm_singleton.1 (toList_insert_perm _ hnone)

/-- The pull is applied, and leaves one record. -/
theorem exists_evaluation (hlowers : c.Lowers circuit) (news : List FactUpdate) :
    ∃ status batch r, ((initial {}).add c).1.applyPull (planOfFirst c) news 0 =
        ((initial {}).run (evaluation c news), .ok (.applied status batch)) ∧
      batch.records = [r] ∧ r.id = ConstraintId.derive c ∧
      ∃ q, ((initial {}).run (evaluation c news)).productions[ConstraintId.derive c]? = some q := by
  rcases exists_alone hlowers with ⟨p, halone, hp, hid, hgeneration, hunknown, -⟩
  rcases applyPull_of_eq hp hid hgeneration news 0 with ⟨q, hpull, hq, -⟩
  have hafter : (initial {}).run (evaluation c news) =
      (((initial {}).add c).1.applyPull (planOfFirst c) news 0).1 := rfl
  rw [hafter, hpull]
  have hrecords := records_apply_alone halone hunknown
    (news.filter (isFresh ((initial {}).add c).1.network (planOfFirst c))) 0
  rw [hid] at hrecords
  exact ⟨_, _, _, rfl, hrecords, rfl, q, hq⟩

theorem owner?_evaluation (hlowers : c.Lowers circuit) (news : List FactUpdate)
    (permission : PermId) :
    ((initial {}).run (evaluation c news)).registry.owner? permission =
      if permission = c.permission then some (ConstraintId.derive c) else none := by
  have hadded := owner?_add_of_free (owner?_initial {} _) hlowers permission
  rw [owner?_initial] at hadded
  rw [← hadded]
  have hafter : (initial {}).run (evaluation c news) =
      ((initial {}).add c).1.perform (.applyPull (planOfFirst c) news 0) := rfl
  rw [hafter]
  rcases ((initial {}).add c).1.perform_applyPull (planOfFirst c) news 0 with hpull | ⟨hpull, -⟩
  · rw [hpull]
    rfl
  · rw [hpull]

end Evaluation

/-! ## Two signers of a treasury -/

/-- The first signer may act while a permission exists. -/
def firstSigner : Constraint :=
  Scenario.permissionExists ⟨"treasury-multisig-signer-account1"⟩ ⟨"upJ2uo9iEKD"⟩

/-- The second signer may act while another permission exists. -/
def secondSigner : Constraint :=
  Scenario.permissionExists ⟨"treasury-multisig-signer-account2"⟩ ⟨"Ok_lRyJhtFJ"⟩

theorem firstSigner_lowers :
    firstSigner.Lowers (.fact (.permissionExists ⟨"upJ2uo9iEKD"⟩)) :=
  .base (.permissionExists _)

theorem secondSigner_lowers :
    secondSigner.Lowers (.fact (.permissionExists ⟨"Ok_lRyJhtFJ"⟩)) :=
  .base (.permissionExists _)

theorem fingerprint_firstSigner :
    ConstraintId.fingerprint firstSigner = [0xdd, 0x85, 0xd3, 0x45, 0x06, 0xf1, 0xb3, 0x1e] := by
  decide +kernel

theorem fingerprint_secondSigner :
    ConstraintId.fingerprint secondSigner = [0xdd, 0x85, 0xd3, 0x45, 0x06, 0xf1, 0xb3, 0x1e] := by
  decide +kernel

/-- The permissions differ in their last characters only, which the identity does not show, and the
hashes begin with the same bytes. -/
theorem derive_firstSigner_eq :
    ConstraintId.derive firstSigner = ConstraintId.derive secondSigner := by
  have hshown : firstSigner.permission.text.toList.take ConstraintId.permissionLength =
      secondSigner.permission.text.toList.take ConstraintId.permissionLength := by decide
  rw [ConstraintId.derive, ConstraintId.derive, hshown, fingerprint_firstSigner,
    fingerprint_secondSigner]

/-- When the second signer is registered after the evaluation of the first one, all records about
that one are lost. -/
theorem forgets_firstSigner (news : List FactUpdate) {r : ActivationRecord}
    (hr : r.id = ConstraintId.derive firstSigner) {id : ConstraintId}
    {history : List ActivationRecord}
    (hhistory : (((initial {}).run (evaluation firstSigner news)).add secondSigner).1.history id =
      .ok history) : r ∉ history := by
  rcases exists_evaluation firstSigner_lowers news with ⟨_, _, _, -, -, -, q, hq⟩
  rw [derive_firstSigner_eq] at hq hr
  have hpermission : secondSigner.permission ≠ firstSigner.permission := by decide
  have hfree := owner?_evaluation firstSigner_lowers news secondSigner.permission
  rw [if_neg hpermission] at hfree
  exact (chronicled_run {} (unambiguous_evaluation firstSigner news)).forgets hq hfree
    secondSigner_lowers hr hhistory

end Engine
end Mandate
