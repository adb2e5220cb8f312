import Mandate.Proofs.Engine.News

/-!
# Records

Settling a production writes nothing at the end of its history, or the change to the state that its
root calls for.  A batch of news hands out the numbers of its records one after the other, in the
order in which productions are settled, and every production writes one record at most.

Main results:

- Definition `Production.Writes`: what is written into the history of a production.
- Theorem `Production.settle_writes`: settling does so.
- Definition `SettlesAll`: how a list of productions is settled, for any order of them.
- Theorems `SettlesAll.numbered`, `SettlesAll.ids`, `SettlesAll.writes`, `SettlesAll.perm`: the
  records of a list of productions.
- Definition `Engine.archive`: all records that the engine holds.
- Theorem `appends_apply`: what a batch of news does to the histories of an engine.
-/

namespace Mandate

/-- The records of a change of state: none if the state stays, and otherwise one from the former
state to the present one, which is known. -/
inductive Production.Changes (p q : Production) : List ActivationRecord → Prop
  | nothing : q.state = p.state → Changes p q []
  | change {record : ActivationRecord} : record.id = p.id → record.source = p.state →
      record.target = q.state → q.state ≠ p.state → q.state ≠ .unknown → Changes p q [record]

/-- The change of state of a production is written at the end of its history. -/
structure Production.Writes (p q : Production) (written : List ActivationRecord) : Prop where
  id_eq : q.id = p.id
  history_eq : q.history = p.history ++ written
  changes : p.Changes q written

/-- Of some records the production writes those that are about it. -/
def Production.WritesOwn (records : List ActivationRecord) (p q : Production) : Prop :=
  p.Writes q (records.filter fun record => record.id = p.id)

theorem Production.Changes.ids {p q : Production} {written : List ActivationRecord}
    (h : p.Changes q written) :
    (∀ record ∈ written, record.id = p.id) ∧
      (written.map ActivationRecord.id).Sublist [p.id] := by
  cases h with
  | nothing _ => simp
  | change hid _ _ _ _ => simp [hid]

theorem Production.writes_refl (p : Production) : p.Writes p [] :=
  ⟨rfl, (List.append_nil _).symm, .nothing rfl⟩

/-- Settling writes its record, if there is one. -/
theorem Production.settle_writes (p : Production) (value : Value) (now : Moment) (next : Nat) :
    p.Writes (p.settle value now next).1 (p.settle value now next).2.toList := by
  unfold settle
  dsimp only
  split
  · exact ⟨rfl, (List.append_nil _).symm, .nothing rfl⟩
  · next hne =>
    exact ⟨rfl, rfl, .change rfl rfl rfl hne (ActivationState.ofValue_ne_unknown value)⟩

/-- The record of a change has the number that is next. -/
theorem Production.settle_sequence (p : Production) (value : Value) (now : Moment) (next : Nat) :
    (p.settle value now next).2.toList.map ActivationRecord.sequence =
      List.range' next (p.settle value now next).2.toList.length := by
  unfold settle
  dsimp only
  split <;> rfl

namespace Engine

/-! ## Settling a list of productions -/

/-- A list of productions is settled from the front; `last` is the number of the last record before,
and every record has the next one. -/
inductive SettlesAll : (last : Nat) → List (ConstraintId × Production) →
    List (ConstraintId × Production) → List ActivationRecord → Prop
  | nil {last : Nat} : SettlesAll last [] [] []
  | cons {last : Nat} {id : ConstraintId} {p q : Production}
      {written records : List ActivationRecord} {rest settled : List (ConstraintId × Production)} :
      p.Writes q written →
      written.map ActivationRecord.sequence = List.range' (last + 1) written.length →
      SettlesAll (last + written.length) rest settled records →
      SettlesAll last ((id, p) :: rest) ((id, q) :: settled) (written ++ records)

theorem settleAll_settlesAll (due : Production → Bool) (value : NodeId → Value) (now : Moment)
    (last : Nat) (l : List (ConstraintId × Production)) :
    SettlesAll last l (settleAll due value now last l).1 (settleAll due value now last l).2 := by
  induction l generalizing last with
  | nil => exact .nil
  | cons entry rest ih =>
    rcases entry with ⟨id, p⟩
    unfold settleAll
    by_cases hdue : due p = true
    · rw [if_pos hdue]
      exact .cons (p.settle_writes _ now _) (p.settle_sequence _ now _) (ih _)
    · rw [if_neg hdue]
      exact .cons p.writes_refl rfl (ih last)

namespace SettlesAll

variable {last : Nat} {l settled : List (ConstraintId × Production)}
  {records : List ActivationRecord}

/-- The records have the next numbers, in order. -/
theorem numbered (h : SettlesAll last l settled records) :
    records.map ActivationRecord.sequence = List.range' (last + 1) records.length := by
  induction h with
  | nil => rfl
  | @cons last _ _ _ written records _ _ _ hwritten _ ih =>
    have hnext : last + written.length + 1 = last + 1 + written.length := by omega
    rw [List.map_append, hwritten, ih, hnext, List.range'_append_1, List.length_append]

/-- The productions write one record each at most, in their order. -/
theorem ids (h : SettlesAll last l settled records) :
    (records.map ActivationRecord.id).Sublist (l.map fun entry => entry.2.id) := by
  induction h with
  | nil => exact List.Sublist.refl []
  | cons hwrites _ _ ih =>
    rw [List.map_append]
    exact hwrites.changes.ids.2.append ih

/-- Every production writes the records that have its identity; `front` are records of others. -/
theorem writes (h : SettlesAll last l settled records) (front : List ActivationRecord)
    (hdistinct : (l.map fun entry => entry.2.id).Nodup)
    (hfront : ∀ record ∈ front, ∀ entry ∈ l, record.id ≠ entry.2.id) :
    List.Forall₂ (fun a b => b.1 = a.1 ∧ Production.WritesOwn (front ++ records) a.2 b.2)
      l settled := by
  induction h generalizing front with
  | nil => exact .nil
  | @cons last id p q written records rest settled hwrites _ hrest ih =>
    rw [List.map_cons, List.nodup_cons] at hdistinct
    have hothers : ∀ entry ∈ rest, p.id ≠ entry.2.id := fun entry hentry heq =>
      hdistinct.1 (heq ▸ List.mem_map_of_mem (f := fun entry => entry.2.id) hentry)
    refine .cons ⟨rfl, ?_⟩ ?_
    · unfold Production.WritesOwn
      -- of all records only those that the production has written are its own
      have hbefore : front.filter (fun record => record.id = p.id) = [] := by
        simpa using fun record hrecord => hfront record hrecord _ List.mem_cons_self
      have hown : written.filter (fun record => record.id = p.id) = written := by
        simpa using hwrites.changes.ids.1
      have hafter : records.filter (fun record => record.id = p.id) = [] := by
        simp only [List.filter_eq_nil_iff, decide_eq_true_eq]
        intro record hrecord heq
        have hid := hrest.ids.subset (List.mem_map_of_mem (f := ActivationRecord.id) hrecord)
        rcases List.mem_map.1 hid with ⟨entry, hentry, hsame⟩
        exact hothers entry hentry (heq.symm.trans hsame.symm)
      simpa only [List.filter_append, hbefore, hown, hafter, List.nil_append, List.append_nil]
    · have htail := ih (front ++ written) hdistinct.2 ?_
      · simpa only [List.append_assoc] using htail
      · intro record hrecord entry hentry
        rcases List.mem_append.1 hrecord with hrecord | hrecord
        · exact hfront record hrecord entry (List.mem_cons_of_mem _ hentry)
        · rw [hwrites.changes.ids.1 record hrecord]
          exact hothers entry hentry

/-- All histories together gain the records. -/
theorem perm (h : SettlesAll last l settled records) :
    (settled.flatMap fun entry => entry.2.history).Perm
      (l.flatMap (fun entry => entry.2.history) ++ records) := by
  induction h with
  | nil => exact .refl []
  | @cons last id p q written records rest settled hwrites _ _ ih =>
    simp only [List.flatMap_cons, hwrites.history_eq, List.append_assoc]
    refine ((ih.append_left written).trans ?_).append_left p.history
    exact List.perm_append_comm_assoc written _ records

end SettlesAll

/-! ## Batches -/

/-- All records that the engine holds, those of registered constraints in front. -/
def archive (e : Engine) : List ActivationRecord :=
  e.productions.toList.flatMap (fun entry => entry.2.history) ++
    e.retired.toList.flatMap fun entry => entry.2

/-- The records have the next numbers, and stand at the ends of the histories of those that they are
about. -/
structure Appends (e : Engine) (records : List ActivationRecord) (after : Engine) : Prop where
  config : after.config = e.config
  retired : after.retired = e.retired
  sequence : after.sequence = e.sequence + records.length
  numbered : records.map ActivationRecord.sequence = List.range' (e.sequence + 1) records.length
  ids : (records.map ActivationRecord.id).Nodup
  owned : ∀ record ∈ records, ∃ p : Production, e.productions[record.id]? = some p
  productions : ∀ id : ConstraintId,
    Option.Rel (Production.WritesOwn records) e.productions[id]? after.productions[id]?
  archive : after.archive.Perm (e.archive ++ records)

/-- The records have numbers that no record before them has. -/
theorem Appends.number {e after : Engine} {records : List ActivationRecord}
    (h : e.Appends records after) {record : ActivationRecord} (hrecord : record ∈ records) :
    e.sequence < record.sequence ∧ record.sequence ≤ after.sequence := by
  have hnumber := List.mem_map_of_mem (f := ActivationRecord.sequence) hrecord
  rw [h.numbered, List.mem_range'_1] at hnumber
  rw [h.sequence]
  omega

/-- Entries whose productions carry their keys have productions of different identities. -/
theorem nodup_ids {e : Engine}
    (h : ∀ {id : ConstraintId} {p : Production}, e.productions[id]? = some p → p.id = id) :
    (e.productions.toList.map fun entry => entry.2.id).Nodup := by
  have hkeys : e.productions.toList.map (fun entry => entry.2.id) =
      e.productions.toList.map Prod.fst := by
    refine List.map_congr_left fun entry hentry => ?_
    exact h (mem_toList_iff.1 hentry)
  rw [hkeys]
  exact nodup_keys_of_perm (.refl _)

/-- A batch of news appends its records to the histories. -/
theorem appends_apply {e : Engine}
    (h : ∀ {id : ConstraintId} {p : Production}, e.productions[id]? = some p → p.id = id)
    (news : List FactUpdate) (asked : Option ConstraintId) (now : Occasion) :
    e.Appends (e.apply news asked now).2.records (e.apply news asked now).1 := by
  have hall : SettlesAll e.sequence (e.visited now)
      (settleAll (isDue asked (supply e.network news).1.propagate.2.changed
        (supply e.network news).2) (e.apply news asked now).1.network.value now.moment e.sequence
        (e.visited now)).1 (e.apply news asked now).2.records :=
    settleAll_settlesAll _ _ now.moment e.sequence (e.visited now)
  have hvisited := e.visited_perm now
  have hdistinct : ((e.visited now).map fun entry => entry.2.id).Nodup :=
    (hvisited.map fun entry => entry.2.id).nodup_iff.2 (nodup_ids h)
  have hwrites := hall.writes [] hdistinct (by simp)
  rw [List.nil_append] at hwrites
  refine ⟨rfl, rfl, rfl, hall.numbered, hall.ids.nodup hdistinct, ?_,
    rel_getElem?_ofList hvisited hwrites, ?_⟩
  · intro record hrecord
    have hid := hall.ids.subset (List.mem_map_of_mem (f := ActivationRecord.id) hrecord)
    rcases List.mem_map.1 hid with ⟨⟨id, p⟩, hentry, hsame⟩
    have hp : e.productions[id]? = some p := mem_toList_iff.1 (hvisited.mem_iff.1 hentry)
    have hown : record.id = id := hsame.symm.trans (h hp)
    exact ⟨p, hown ▸ hp⟩
  have hperm := toList_ofList_perm (distinct_of_forall₂ hvisited hwrites)
  have hlive := ((hperm.flatMap_right fun entry => entry.2.history).trans hall.perm).trans
    ((hvisited.flatMap_right fun entry => entry.2.history).append_right _)
  -- the new records come behind those of the constraints that are no longer registered
  unfold archive
  rw [List.append_assoc]
  refine (hlive.append_right _).trans ?_
  rw [List.append_assoc]
  exact List.perm_append_comm.append_left _

/-- A production that is alone and has not been evaluated before has one record when it is asked
for. -/
theorem records_apply_alone {e : Engine} {id : ConstraintId} {p : Production}
    (halone : e.productions.toList = [(id, p)]) (hunknown : p.state = .unknown)
    (news : List FactUpdate) (now : Occasion) :
    (e.apply news (some p.id) now).2.records =
      [⟨p.id, .unknown, .ofValue ((e.apply news (some p.id) now).1.network.value p.root),
        now.moment, e.sequence + 1⟩] := by
  simp only [apply, visited, halone, List.mergeSort_singleton, settleAll, isDue, decide_true,
    Bool.true_or, if_true, Production.settle, hunknown, ActivationState.ofValue_ne_unknown, if_false,
    Option.toList_some, List.append_nil]

end Engine
end Mandate
