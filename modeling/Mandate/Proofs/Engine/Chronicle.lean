import Mandate.Engine.Queries
import Mandate.Proofs.Engine.Generations
import Mandate.Proofs.Engine.Records

/-!
# Histories

The history of an identity goes with its production while it is registered.  It is set aside when
the production is withdrawn, if histories are retained, and taken up again when the production comes
back.  No operation changes a record or the order of records.

Main results:

- Definitions `log`, `Remembers`: the records about an identity, wherever they are.
- Definition `IsHistory`: a history whose records follow on each other.
- Definition `Chronicled`: all histories of an engine are in order.
- Definition `returned`: the records that an operation returns.
- Theorem `numbered_perform`: they have the next numbers.
- Definition `Logs`: what an operation does to the histories.
- Theorem `Chronicled.perform`: every operation does so.
-/

namespace Mandate
namespace Engine

/-! ## Logs -/

/-- The records about an identity, of its production or set aside. -/
def log (e : Engine) (id : ConstraintId) : List ActivationRecord :=
  match e.productions[id]? with
  | some p => p.history
  | none => e.retired[id]?.getD []

/-- The identity has a history. -/
def Remembers (e : Engine) (id : ConstraintId) : Prop :=
  ∃ h, e.history id = .ok h

section

variable {e : Engine} {id : ConstraintId} {p : Production}

theorem log_of_some (hp : e.productions[id]? = some p) : e.log id = p.history := by
  simp only [log, hp]

theorem log_of_none (hnone : e.productions[id]? = none) : e.log id = e.retired[id]?.getD [] := by
  simp only [log, hnone]

theorem remembers_iff :
    e.Remembers id ↔ ¬ (e.productions[id]? = none ∧ e.retired[id]? = none) := by
  unfold Remembers history
  cases e.productions[id]? with
  | some p => simp
  | none => cases e.retired[id]? <;> simp [orNotFound]

/-- What is told as the history of an identity are the records about it. -/
theorem log_of_history {h : List ActivationRecord} (hhistory : e.history id = .ok h) :
    e.log id = h := by
  unfold history at hhistory
  unfold log
  cases hp : e.productions[id]? with
  | some p =>
    rw [hp] at hhistory
    exact Except.ok.inj hhistory
  | none =>
    rw [hp] at hhistory
    cases hretired : e.retired[id]? with
    | some retired =>
      rw [hretired] at hhistory
      exact Except.ok.inj hhistory
    | none =>
      rw [hretired] at hhistory
      cases hhistory

end

/-! ## Histories in order -/

/-- The state that the last record of a history leads to. -/
def lastTarget? (h : List ActivationRecord) : Option ActivationState :=
  h.getLast?.map ActivationRecord.target

/-- The records are about one identity and have no numbers beyond `last`.  Each is a change to a
known state, from the state that the record before it leads to or from a new start. -/
structure IsHistory (id : ConstraintId) (last : Nat) (h : List ActivationRecord) : Prop where
  records : ∀ r ∈ h, r.id = id ∧ r.source ≠ r.target ∧ r.target ≠ .unknown
  chained : ∀ before r after, h = before ++ r :: after →
    r.source = .unknown ∨ lastTarget? before = some r.source
  ordered : h.Pairwise fun r s => r.sequence < s.sequence
  bounded : ∀ r ∈ h, r.sequence ≤ last

/-- The state of the production is unknown, or its history ends in it. -/
def UpToDate (p : Production) : Prop :=
  p.state = .unknown ∨ lastTarget? p.history = some p.state

namespace IsHistory

variable {id : ConstraintId} {last later : Nat} {h : List ActivationRecord} {p q : Production}
  {r : ActivationRecord} {written : List ActivationRecord}

theorem nil (id : ConstraintId) (last : Nat) : IsHistory id last [] := by
  constructor <;> simp

theorem mono (hh : IsHistory id last h) (hle : last ≤ later) : IsHistory id later h :=
  ⟨hh.records, hh.chained, hh.ordered, fun r hr => Nat.le_trans (hh.bounded r hr) hle⟩

/-- A record goes behind a history if it starts where the history ends. -/
theorem concat (hh : IsHistory id last h) (hid : r.id = id) (hne : r.source ≠ r.target)
    (hknown : r.target ≠ .unknown) (hsource : r.source = .unknown ∨ lastTarget? h = some r.source)
    (hlater : last < r.sequence) : IsHistory id r.sequence (h ++ [r]) := by
  constructor
  · intro s hs
    rcases List.mem_append.1 hs with hs | hs
    · exact hh.records s hs
    · rw [List.mem_singleton.1 hs]
      exact ⟨hid, hne, hknown⟩
  · intro before s after hsplit
    cases after using List.reverseRecOn with
    | nil =>
      rcases List.append_inj' hsplit rfl with ⟨rfl, hsame⟩
      rw [← (List.cons.inj hsame).1]
      exact hsource
    | append_singleton after t =>
      rw [← List.cons_append, ← List.append_assoc] at hsplit
      exact hh.chained before s after (List.append_inj' hsplit rfl).1
  · rw [List.pairwise_append]
    refine ⟨hh.ordered, List.pairwise_singleton _ r, ?_⟩
    intro s hs t ht
    rw [List.mem_singleton.1 ht]
    exact Nat.lt_of_le_of_lt (hh.bounded s hs) hlater
  · intro s hs
    rcases List.mem_append.1 hs with hs | hs
    · exact Nat.le_of_lt (Nat.lt_of_le_of_lt (hh.bounded s hs) hlater)
    · rw [List.mem_singleton.1 hs]

/-- What a production writes goes behind its history, which ends in its state again. -/
theorem writes (hh : IsHistory id last p.history) (hid : p.id = id) (hdate : UpToDate p)
    (hwrites : p.Writes q written)
    (hnumbers : ∀ r ∈ written, last < r.sequence ∧ r.sequence ≤ later) (hle : last ≤ later) :
    IsHistory id later q.history ∧ UpToDate q := by
  have hhistory := hwrites.history_eq
  cases hwrites.changes with
  | nothing hstate =>
    rw [List.append_nil] at hhistory
    unfold UpToDate
    rw [hhistory, hstate]
    exact ⟨hh.mono hle, hdate⟩
  | @change r hown hsource htarget hne hknown =>
    have hr := hnumbers r (List.mem_singleton_self r)
    rw [hhistory]
    refine ⟨(hh.concat (hown.trans hid) ?_ ?_ ?_ hr.1).mono hr.2, Or.inr ?_⟩
    · rw [hsource, htarget]
      exact hne.symm
    · rwa [htarget]
    · rwa [hsource]
    · rw [hhistory, lastTarget?, List.getLast?_concat, Option.map_some, htarget]

end IsHistory

/-- Every history is in order, and no identity has both a production and a history that has been set
aside. -/
structure Chronicled (e : Engine) : Prop where
  identified : ∀ {id : ConstraintId} {p : Production}, e.productions[id]? = some p → p.id = id
  apart : ∀ {id : ConstraintId} {p : Production}, e.productions[id]? = some p → e.retired[id]? = none
  history : ∀ id, IsHistory id e.sequence (e.log id)
  upToDate : ∀ {id : ConstraintId} {p : Production}, e.productions[id]? = some p → UpToDate p

theorem chronicled_initial (config : RegistryConfig) : (initial config).Chronicled where
  identified := by simp [initial]
  apart := by simp [initial]
  history := by
    intro id
    have hlog : (initial config).log id = [] := by simp [log, initial]
    rw [hlog]
    exact IsHistory.nil id _
  upToDate := by simp [initial]

/-! ## What operations do to histories -/

/-- The records that an operation returns. -/
def returned (e : Engine) : Operation → List ActivationRecord
  | .applyFacts news now => (e.applyFacts news now).2.records
  | .applyPull plan news now =>
    match (e.applyPull plan news now).2 with
    | .ok (.applied _ batch) => batch.records
    | _ => []
  | _ => []

/-- The records go behind the histories that they belong to.  What has gone loses its history, unless
histories are retained. -/
structure Logs (e : Engine) (records : List ActivationRecord) (gone : ConstraintId → Prop)
    (after : Engine) : Prop where
  chronicled : after.Chronicled
  config : after.config = e.config
  sequence : after.sequence = e.sequence + records.length
  numbered : records.map ActivationRecord.sequence = List.range' (e.sequence + 1) records.length
  ids : (records.map ActivationRecord.id).Nodup
  log : ∀ id, after.log id = e.log id ++ records.filter (fun record => record.id = id) ∨
    e.config.retainHistory = false ∧ gone id ∧ after.log id = []
  remembers : e.config.retainHistory = true → ∀ id, e.Remembers id → after.Remembers id
  archive : e.config.retainHistory = true → after.archive.Perm (e.archive ++ records)

namespace Logs

variable {e room after : Engine} {gone : ConstraintId → Prop}

theorem refl (h : e.Chronicled) (gone : ConstraintId → Prop) : e.Logs [] gone e where
  chronicled := h
  config := rfl
  sequence := rfl
  numbered := rfl
  ids := List.nodup_nil
  log := by simp
  remembers := fun _ _ hhistory => hhistory
  archive := by simp

theorem mono {records : List ActivationRecord} {gone' : ConstraintId → Prop}
    (h : e.Logs records gone after) (hgone : ∀ id, gone id → gone' id) :
    e.Logs records gone' after where
  chronicled := h.chronicled
  config := h.config
  sequence := h.sequence
  numbered := h.numbered
  ids := h.ids
  log id := (h.log id).imp_right fun hlost => ⟨hlost.1, hgone id hlost.2.1, hlost.2.2⟩
  remembers := h.remembers
  archive := h.archive

/-- Two steps that write nothing. -/
theorem trans (hroom : e.Logs [] gone room) (hafter : room.Logs [] gone after) :
    e.Logs [] gone after where
  chronicled := hafter.chronicled
  config := hafter.config.trans hroom.config
  sequence := hafter.sequence.trans hroom.sequence
  numbered := rfl
  ids := List.nodup_nil
  log := by
    intro id
    rcases hafter.log id with hsame | ⟨hretain, hlost⟩
    · rw [List.filter_nil, List.append_nil] at hsame
      rw [hsame]
      exact hroom.log id
    · exact Or.inr ⟨hroom.config ▸ hretain, hlost⟩
  remembers := by
    intro hretain id hhistory
    exact hafter.remembers (hroom.config ▸ hretain) id (hroom.remembers hretain id hhistory)
  archive := by
    intro hretain
    have hlast := hafter.archive (hroom.config ▸ hretain)
    rw [List.append_nil] at hlast
    exact hlast.trans (hroom.archive hretain)

end Logs

namespace Chronicled

variable {e after : Engine} {id : ConstraintId} {p : Production} {records : List ActivationRecord}

/-- A production that is withdrawn leaves its history behind if histories are retained. -/
theorem withdraw (h : e.Chronicled) (hp : e.productions[id]? = some p) :
    e.Logs [] (· = id) (e.withdraw p).1 := by
  have hid : p.id = id := h.identified hp
  have hproductions : ∀ other : ConstraintId, (e.withdraw p).1.productions[other]? =
      if other = id then none else e.productions[other]? := by
    intro other
    rw [← hid]
    exact getElem?_erase_eq _ _ _
  have hretired : ∀ other : ConstraintId, (e.withdraw p).1.retired[other]? =
      if other = id ∧ e.config.retainHistory = true then some p.history
      else e.retired[other]? := by
    intro other
    unfold Engine.withdraw
    dsimp only
    cases e.config.retainHistory with
    | true => simpa [hid] using getElem?_insert_eq e.retired id other p.history
    | false => simp
  have hlog : ∀ other, (e.withdraw p).1.log other =
      if other = id ∧ e.config.retainHistory = false then [] else e.log other := by
    intro other
    unfold log
    rw [hproductions, hretired]
    by_cases hother : other = id
    · subst hother
      cases hretain : e.config.retainHistory <;> simp [hp, h.apart hp]
    · simp [hother]
  refine ⟨⟨?_, ?_, ?_, ?_⟩, rfl, rfl, rfl, List.nodup_nil, ?_, ?_, ?_⟩
  · intro other q hq
    rw [hproductions, Option.ite_none_left_eq_some] at hq
    exact h.identified hq.2
  · intro other q hq
    rw [hproductions, Option.ite_none_left_eq_some] at hq
    rw [hretired, if_neg fun hboth => hq.1 hboth.1]
    exact h.apart hq.2
  · intro other
    rw [hlog]
    split
    · exact IsHistory.nil other _
    · exact h.history other
  · intro other q hq
    rw [hproductions, Option.ite_none_left_eq_some] at hq
    exact h.upToDate hq.2
  · intro other
    rw [hlog, List.filter_nil, List.append_nil]
    by_cases hgone : other = id ∧ e.config.retainHistory = false
    · exact Or.inr ⟨hgone.2, hgone.1, if_pos hgone⟩
    · exact Or.inl (if_neg hgone)
  · intro hretain other hhistory
    rw [remembers_iff] at hhistory ⊢
    rw [hproductions, hretired]
    by_cases hother : other = id
    · simp [hother, hretain]
    · simpa [hother] using hhistory
  · intro hretain
    have hlive := (toList_perm_erase hp).flatMap_right fun entry => entry.2.history
    have hset := (toList_insert_perm p.history (h.apart hp)).flatMap_right fun entry => entry.2
    have hafter : (e.withdraw p).1.archive =
        (e.productions.erase id).toList.flatMap (fun entry => entry.2.history) ++
          (e.retired.insert id p.history).toList.flatMap fun entry => entry.2 := by
      unfold archive Engine.withdraw
      dsimp only
      rw [if_pos hretain, hid]
    rw [hafter, List.append_nil]
    unfold archive
    refine (hset.append_left _).trans (.trans ?_ (hlive.append_right _).symm)
    rw [List.flatMap_cons, List.flatMap_cons, List.append_assoc]
    exact List.perm_append_comm_assoc _ _ _

theorem displace (h : e.Chronicled) (old : ConstraintId) :
    e.Logs [] (· = old) (e.displace old).1 := by
  unfold Engine.displace
  cases hp : e.productions[old]? with
  | some p => exact h.withdraw hp
  | none => exact .refl h _

/-- The network has no part in the histories. -/
theorem replaceNetwork (h : e.Chronicled) (net : Network) (gone : ConstraintId → Prop) :
    e.Logs [] gone { e with network := net } where
  chronicled := ⟨h.identified, h.apart, h.history, h.upToDate⟩
  config := rfl
  sequence := rfl
  numbered := rfl
  ids := List.nodup_nil
  log _ := Or.inl (List.append_nil _).symm
  remembers _ _ hhistory := hhistory
  archive _ := .of_eq (List.append_nil _).symm

/-- Making room loses at most the history of what is displaced. -/
theorem makeRoom (h : e.Chronicled) (circuit : Circuit) (old : Option ConstraintId) :
    e.Logs [] (fun id => some id = old) (e.makeRoom circuit old).1 := by
  have hbuilt := h.replaceNetwork (e.network.build circuit).network fun id => some id = old
  cases old with
  | none => exact hbuilt
  | some old =>
    have hdisplaced := hbuilt.chronicled.displace old
    refine hbuilt.trans ?_
    simp only [Option.some.injEq]
    exact hdisplaced

/-- A production that comes back takes up its history. -/
theorem enter (h : e.Chronicled) (hnew : e.productions[id]? = none) (c : Constraint)
    (root : NodeId) (gone : ConstraintId → Prop) : e.Logs [] gone (e.enter id c root) := by
  have hretired : ∀ other : ConstraintId, (e.enter id c root).retired[other]? =
      if other = id then none else e.retired[other]? := getElem?_erase_eq _ _
  have hlog : ∀ other, (e.enter id c root).log other = e.log other := by
    intro other
    unfold log
    rw [productions_enter, hretired]
    by_cases hother : other = id
    · subst hother
      simp [hnew, entered]
    · simp [hother]
  refine ⟨⟨?_, ?_, ?_, ?_⟩, rfl, rfl, rfl, List.nodup_nil, ?_, ?_, ?_⟩
  · intro other q hq
    rw [productions_enter] at hq
    by_cases hother : other = id
    · rw [if_pos hother, Option.some.injEq] at hq
      rw [← hq, hother]
      rfl
    · rw [if_neg hother] at hq
      exact h.identified hq
  · intro other q hq
    rw [hretired]
    rw [productions_enter] at hq
    by_cases hother : other = id
    · exact if_pos hother
    · rw [if_neg hother] at hq ⊢
      exact h.apart hq
  · intro other
    rw [hlog]
    exact h.history other
  · intro other q hq
    rw [productions_enter] at hq
    by_cases hother : other = id
    · rw [if_pos hother, Option.some.injEq] at hq
      rw [← hq]
      exact Or.inl rfl
    · rw [if_neg hother] at hq
      exact h.upToDate hq
  · intro other
    rw [hlog, List.filter_nil, List.append_nil]
    exact Or.inl rfl
  · intro hretain other hhistory
    rw [remembers_iff] at hhistory ⊢
    rw [productions_enter, hretired]
    by_cases hother : other = id
    · simp [hother]
    · simpa [hother] using hhistory
  · intro hretain
    rw [List.append_nil]
    have hlive := (toList_insert_perm (e.entered id c root) hnew).flatMap_right fun entry =>
      entry.2.history
    have hrest : (e.enter id c root).archive =
        (e.productions.insert id (e.entered id c root)).toList.flatMap
            (fun entry => entry.2.history) ++
          (e.retired.erase id).toList.flatMap fun entry => entry.2 := rfl
    have hset : (e.retired.toList.flatMap fun entry => entry.2).Perm
        (e.retired[id]?.getD [] ++ (e.retired.erase id).toList.flatMap fun entry => entry.2) := by
      cases hhistory : e.retired[id]? with
      | some history => exact (toList_perm_erase hhistory).flatMap_right fun entry => entry.2
      | none =>
        have hsame : ∀ other : ConstraintId, e.retired[other]? = (e.retired.erase id)[other]? := by
          intro other
          rw [getElem?_erase_eq]
          by_cases hother : other = id <;> simp [hother, hhistory]
        exact (toList_perm_of_getElem?_eq hsame).flatMap_right fun entry => entry.2
    rw [hrest]
    unfold archive
    refine (hlive.append_right _).trans (.trans ?_ (hset.append_left _).symm)
    rw [List.flatMap_cons, List.append_assoc]
    exact List.perm_append_comm_assoc _ _ _

/-- Records are added to the logs of those that they are about. -/
theorem log_appends (h : e.Chronicled) (happends : e.Appends records after)
    (id : ConstraintId) :
    after.log id = e.log id ++ records.filter (fun record => record.id = id) := by
  cases hp : e.productions[id]? with
  | some p =>
    rcases exists_right_of_rel (happends.productions id) hp with ⟨q, hq, hwrites⟩
    rw [log_of_some hp, log_of_some hq, hwrites.history_eq, h.identified hp]
  | none =>
    have hq := (eq_none_iff_of_rel (happends.productions id)).2 hp
    have hothers : records.filter (fun record => record.id = id) = [] := by
      simp only [List.filter_eq_nil_iff, decide_eq_true_eq]
      rintro record hrecord rfl
      rcases happends.owned record hrecord with ⟨p, hthere⟩
      rw [hp] at hthere
      cases hthere
    rw [log_of_none hp, log_of_none hq, happends.retired, hothers, List.append_nil]

/-- A production that has written its records has its history in order. -/
theorem production_appends (h : e.Chronicled) (happends : e.Appends records after) {q : Production}
    (hq : after.productions[id]? = some q) :
    q.id = id ∧ e.retired[id]? = none ∧ IsHistory id after.sequence q.history ∧ UpToDate q := by
  rcases exists_left_of_rel (happends.productions id) hq with ⟨p, hp, hwrites⟩
  have hid := h.identified hp
  have hhistory := h.history id
  rw [log_of_some hp] at hhistory
  have hle : e.sequence ≤ after.sequence := by
    rw [happends.sequence]
    omega
  refine ⟨hwrites.id_eq.trans hid, h.apart hp, ?_⟩
  refine hhistory.writes hid (h.upToDate hp) hwrites ?_ hle
  exact fun record hrecord => happends.number (List.mem_of_mem_filter hrecord)

theorem appends (h : e.Chronicled) (happends : e.Appends records after) : after.Chronicled := by
  constructor
  · exact fun hq => (h.production_appends happends hq).1
  · intro id q hq
    rw [happends.retired]
    exact (h.production_appends happends hq).2.1
  · intro id
    cases hq : after.productions[id]? with
    | some q =>
      rw [log_of_some hq]
      exact (h.production_appends happends hq).2.2.1
    | none =>
      have hp := (eq_none_iff_of_rel (happends.productions id)).1 hq
      have hsame : after.log id = e.log id := by
        rw [log_of_none hq, log_of_none hp, happends.retired]
      rw [hsame]
      refine (h.history id).mono ?_
      rw [happends.sequence]
      omega
  · exact fun hq => (h.production_appends happends hq).2.2.2

/-- A batch of news writes its records. -/
theorem apply (h : e.Chronicled) (news : List FactUpdate) (asked : Option ConstraintId)
    (now : Occasion) (gone : ConstraintId → Prop) :
    e.Logs (e.apply news asked now).2.records gone (e.apply news asked now).1 := by
  have happends := appends_apply h.identified news asked now
  refine ⟨h.appends happends, happends.config, happends.sequence, happends.numbered, happends.ids,
    fun id => Or.inl (h.log_appends happends id), ?_, fun _ => happends.archive⟩
  intro _ id hhistory
  rw [remembers_iff] at hhistory ⊢
  rwa [happends.retired, eq_none_iff_of_rel (happends.productions id)]

end Chronicled

/-! ## Operations -/

/-- A pull returns the records of the batch that it applies. -/
theorem returned_applyPull (e : Engine) (plan : PullPlan) (news : List FactUpdate) (now : Occasion) :
    (e.perform (.applyPull plan news now) =
          (e.apply (news.filter (isFresh e.network plan)) (some plan.id) now).1 ∧
        e.returned (.applyPull plan news now) =
          (e.apply (news.filter (isFresh e.network plan)) (some plan.id) now).2.records) ∨
      (e.perform (.applyPull plan news now) = e ∧ e.returned (.applyPull plan news now) = []) := by
  simp only [perform, returned, applyPull]
  cases hp : e.productions[plan.id]? with
  | none => exact Or.inr ⟨rfl, rfl⟩
  | some p =>
    by_cases hgeneration : p.generation = plan.generation
    · left
      rcases exists_right_of_rel (settles_apply e (news.filter (isFresh e.network plan))
        (some plan.id) now plan.id) hp with ⟨q, hq, -⟩
      simp only [if_pos hgeneration, hq]
      exact ⟨trivial, trivial⟩
    · right
      simp [hgeneration]

/-- An operation counts the records that it returns, and gives them the next numbers in order. -/
theorem numbered_perform (e : Engine) (op : Operation) :
    (e.perform op).sequence = e.sequence + (e.returned op).length ∧
      (e.returned op).map ActivationRecord.sequence =
        List.range' (e.sequence + 1) (e.returned op).length := by
  have hbatch : ∀ news asked now, (e.apply news asked now).2.records.map ActivationRecord.sequence =
      List.range' (e.sequence + 1) (e.apply news asked now).2.records.length :=
    fun news asked now =>
      (settleAll_settlesAll _ _ now.moment e.sequence (e.visited now)).numbered
  cases op with
  | add c =>
    refine ⟨?_, rfl⟩
    have houtcome := e.add_outcome c
    simp only [perform]
    generalize (e.add c).1 = after at houtcome ⊢
    generalize (e.add c).2 = reply at houtcome
    cases houtcome with
    | refused _ => rfl
    | unchanged _ => rfl
    | installed _ _ => exact sequence_registered e c _ _
  | remove id =>
    refine ⟨?_, rfl⟩
    simp only [perform, remove]
    cases e.productions[id]? <;> rfl
  | applyFacts news now => exact ⟨rfl, hbatch news none now⟩
  | applyPull plan news now =>
    rcases e.returned_applyPull plan news now with ⟨hafter, hreturned⟩ | ⟨hafter, hreturned⟩
    · rw [hafter, hreturned]
      exact ⟨rfl, hbatch _ _ now⟩
    · rw [hafter, hreturned]
      exact ⟨rfl, rfl⟩

/-- Every operation writes the records that it returns, and what it withdraws loses its history
unless histories are retained. -/
theorem Chronicled.perform {e : Engine} {spare : List NodeId} {op : Operation} (h : e.Chronicled)
    (hrooted : e.Rooted spare) (hop : ∀ c, op = .add c → e.Distinguishes c) :
    e.Logs (e.returned op) (e.Withdraws op) (e.perform op) := by
  cases op with
  | add c =>
    have houtcome := e.add_outcome c
    simp only [Engine.perform, returned]
    have hwithdraws : ∀ registered id, (e.add c).2 = .ok registered →
        registered.kind = .replaced id → e.Withdraws (.add c) id :=
      fun registered id hreply hkind => Or.inr ⟨c, registered, rfl, hreply, hkind⟩
    generalize (e.add c).1 = after at houtcome ⊢
    generalize (e.add c).2 = reply at houtcome hwithdraws
    cases houtcome with
    | refused _ => exact .refl h _
    | unchanged _ => exact .refl h _
    | @installed old circuit hadmits hlowers =>
      have hroom := h.makeRoom circuit old
      have hnew : (e.makeRoom circuit old).1.productions[ConstraintId.derive c]? = none := by
        rw [(hrooted.makeRoom hlowers hadmits).productions,
          hrooted.production_of_admits (hop c rfl) hadmits, ite_self]
      refine (hroom.trans (hroom.chronicled.enter hnew c _ _)).mono ?_
      exact fun id hold => hwithdraws _ id rfl (kindOf_eq_replaced_iff.2 hold.symm)
  | remove id =>
    simp only [Engine.perform, returned]
    cases hp : e.productions[id]? with
    | none =>
      rw [remove_of_none hp]
      exact .refl h _
    | some p =>
      have hremove : e.remove id = ((e.withdraw p).1, .ok (e.withdraw p).2) := by
        simp only [Engine.remove, hp]
      rw [hremove]
      refine (h.withdraw hp).mono ?_
      rintro other rfl
      exact Or.inl ⟨rfl, (e.withdraw p).2, by rw [hremove]⟩
  | applyFacts news now => exact h.apply news none now _
  | applyPull plan news now =>
    rcases e.returned_applyPull plan news now with ⟨hafter, hreturned⟩ | ⟨hafter, hreturned⟩
    · rw [hafter, hreturned]
      exact h.apply _ _ now _
    · rw [hafter, hreturned]
      exact .refl h _

end Engine
end Mandate
