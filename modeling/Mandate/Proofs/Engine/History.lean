import Mandate.Proofs.Engine.Chronicle

/-!
# Runs and histories

The histories of an engine are an append-only log of everything that its operations return.

Main results:

- Definition `returnedIn`: all records that a run returns.
- Theorem `logs_of_mem_trace`: what a step of a run does to the histories.
- Theorem `returnedIn_run`: the records of a run have the numbers from one on.
- Theorem `archive_run`: if histories are retained, no record is ever lost.
- Theorem `histories_of_run`: the histories after every run.
-/

namespace Mandate
namespace Engine

/-- All records that the operations of a run return, in order. -/
def returnedIn (e : Engine) (ops : List Operation) : List ActivationRecord :=
  (e.trace ops).flatMap fun step => step.1.returned step.2

theorem returnedIn_concat (e : Engine) (ops : List Operation) (op : Operation) :
    e.returnedIn (ops ++ [op]) = e.returnedIn ops ++ (e.run ops).returned op := by
  simp [returnedIn, trace_concat]

section Run

variable {config : RegistryConfig} {ops : List Operation}

/-- The last operation of a run writes the records that it returns. -/
theorem logs_last {op : Operation} (hops : Unambiguous (ops ++ [op]))
    (h : ((initial config).run ops).Chronicled) :
    ((initial config).run ops).Logs (((initial config).run ops).returned op)
      (((initial config).run ops).Withdraws op) ((initial config).run (ops ++ [op])) := by
  rcases rooted_run config ops with ⟨spare, hrooted⟩
  rw [run_concat]
  exact h.perform hrooted (distinguishes_last hops)

/-- All histories are in order after every run. -/
theorem chronicled_run (config : RegistryConfig) (hops : Unambiguous ops) :
    ((initial config).run ops).Chronicled := by
  induction ops using List.reverseRecOn with
  | nil => exact chronicled_initial config
  | append_singleton ops op ih => exact (logs_last hops (ih hops.of_append)).chronicled

theorem logs_of_mem_trace (hops : Unambiguous ops) {step : Engine × Operation}
    (hstep : step ∈ (initial config).trace ops) :
    step.1.Logs (step.1.returned step.2) (step.1.Withdraws step.2) (step.1.perform step.2) := by
  rcases mem_trace_iff.1 hstep with ⟨before, after, hsplit, hengine⟩
  have hbefore : Unambiguous (before ++ [step.2]) := by
    rw [hsplit, ← List.singleton_append, ← List.append_assoc] at hops
    exact hops.of_append
  have hlogs := logs_last hbefore (chronicled_run config hbefore.of_append)
  rwa [run_concat, ← hengine] at hlogs

theorem config_of_mem_trace {step : Engine × Operation}
    (hstep : step ∈ (initial config).trace ops) : step.1.config = config := by
  rcases mem_trace_iff.1 hstep with ⟨before, after, -, hengine⟩
  rw [hengine, config_run]

/-- The records of a run have the numbers from one on, in order. -/
theorem returnedIn_run (config : RegistryConfig) (ops : List Operation) :
    ((initial config).run ops).sequence = ((initial config).returnedIn ops).length ∧
      ((initial config).returnedIn ops).map ActivationRecord.sequence =
        List.range' 1 ((initial config).returnedIn ops).length := by
  induction ops using List.reverseRecOn with
  | nil => exact ⟨rfl, rfl⟩
  | append_singleton ops op ih =>
    rcases ih with ⟨hsequence, hnumbered⟩
    rcases ((initial config).run ops).numbered_perform op with ⟨hlater, hlast⟩
    rw [hsequence, Nat.add_comm] at hlast
    rw [returnedIn_concat, run_concat, List.length_append, List.map_append, hnumbered, hlast,
      List.range'_append_1, hlater, hsequence]
    exact ⟨rfl, rfl⟩

/-- If histories are retained, they hold all records together, each once. -/
theorem archive_run (hops : Unambiguous ops) (hretain : config.retainHistory = true) :
    ((initial config).run ops).archive.Perm ((initial config).returnedIn ops) := by
  induction ops using List.reverseRecOn with
  | nil => simp [archive, run, returnedIn, trace, initial]
  | append_singleton ops op ih =>
    have hlogs := logs_last hops (chronicled_run config hops.of_append)
    have hkept : ((initial config).run ops).config.retainHistory = true := by
      rwa [config_run]
    rw [returnedIn_concat]
    exact (hlogs.archive hkept).trans ((ih hops.of_append).append_right _)

end Run

/-- The history of an identity is about it. -/
theorem Chronicled.id_of_history {e : Engine} (h : e.Chronicled) {id : ConstraintId}
    {history : List ActivationRecord} (hhistory : e.history id = .ok history)
    {r : ActivationRecord} (hr : r ∈ history) : r.id = id := by
  have hlog := h.history id
  rw [log_of_history hhistory] at hlog
  exact (hlog.records r hr).1

/-- The records that an engine holds are those of all histories. -/
theorem Chronicled.mem_archive_iff {e : Engine} (h : e.Chronicled) {r : ActivationRecord} :
    r ∈ e.archive ↔ ∃ id history, e.history id = .ok history ∧ r ∈ history := by
  unfold archive
  simp only [List.mem_append, List.mem_flatMap]
  constructor
  · rintro (⟨⟨id, p⟩, hentry, hr⟩ | ⟨⟨id, retired⟩, hentry, hr⟩)
    · have hp : e.productions[id]? = some p := mem_toList_iff.1 hentry
      exact ⟨id, p.history, by simp only [Engine.history, hp], hr⟩
    · have hretired : e.retired[id]? = some retired := mem_toList_iff.1 hentry
      refine ⟨id, retired, ?_, hr⟩
      cases hp : e.productions[id]? with
      | some p =>
        rw [h.apart hp] at hretired
        cases hretired
      | none => simp only [Engine.history, hp, hretired, orNotFound]
  · rintro ⟨id, history, hhistory, hr⟩
    unfold Engine.history at hhistory
    cases hp : e.productions[id]? with
    | some p =>
      rw [hp, Except.ok.injEq] at hhistory
      exact Or.inl ⟨(id, p), mem_toList_iff.2 hp, hhistory ▸ hr⟩
    | none =>
      rw [hp] at hhistory
      cases hretired : e.retired[id]? with
      | none =>
        rw [hretired] at hhistory
        cases hhistory
      | some retired =>
        rw [hretired] at hhistory
        exact Or.inr ⟨(id, retired), mem_toList_iff.2 hretired, Except.ok.inj hhistory ▸ hr⟩

/-- What withdraws something returns no records. -/
theorem returned_of_withdraws {e : Engine} {op : Operation} {id : ConstraintId}
    (h : e.Withdraws op id) : e.returned op = [] := by
  rcases h with ⟨rfl, -⟩ | ⟨c, registered, rfl, -⟩
  · rfl
  · rfl

/-- If histories are retained, an operation extends every history. -/
theorem Logs.prefix_of_retain {e after : Engine} {records : List ActivationRecord}
    {gone : ConstraintId → Prop} (h : e.Logs records gone after)
    (hretain : e.config.retainHistory = true) {id : ConstraintId} {earlier : List ActivationRecord}
    (hearlier : e.history id = .ok earlier) :
    ∃ later, after.history id = .ok later ∧ earlier <+: later := by
  rcases h.remembers hretain id ⟨earlier, hearlier⟩ with ⟨later, hlater⟩
  refine ⟨later, hlater, ?_⟩
  rw [← log_of_history hearlier, ← log_of_history hlater]
  rcases h.log id with hlog | ⟨hlost, -⟩
  · rw [hlog]
    exact List.prefix_append _ _
  · rw [hretain] at hlost
    cases hlost

/-- After every run all histories are in order: each record is a change to another, known state, the
numbers increase, every record starts from the state to which the one before leads or from the unknown
one, and the history of a production whose state is known ends in that state.  If histories are
retained, every step extends the histories that there are, and all of them together hold the records
that the run has returned, which have the numbers from one on.  Every step puts the records that it
returns, in the order of their numbers and one for each identity at most, behind the histories of
their identities; only what it withdraws loses its history, unless histories are retained. -/
theorem histories_of_run (config : RegistryConfig) (ops : List Operation) (hops : Unambiguous ops) :
    let e := (initial config).run ops
    (∀ id h, e.history id = .ok h →
        (∀ r ∈ h, r.id = id ∧ r.source ≠ r.target ∧ r.target ≠ .unknown) ∧
          h.Pairwise (fun r s => r.sequence < s.sequence) ∧
          ∀ before r after, h = before ++ r :: after →
            r.source = .unknown ∨ lastTarget? before = some r.source) ∧
      (∀ (id : ConstraintId) (p : Production), e.productions[id]? = some p → p.state ≠ .unknown →
        lastTarget? p.history = some p.state) ∧
      (config.retainHistory = true →
        (∀ step ∈ (initial config).trace ops, ∀ id earlier, step.1.history id = .ok earlier →
          ∃ later, (step.1.perform step.2).history id = .ok later ∧ earlier <+: later) ∧
        e.archive.Perm ((initial config).returnedIn ops) ∧
        (e.archive.map ActivationRecord.sequence).Perm
          (List.range' 1 ((initial config).returnedIn ops).length)) ∧
      ∀ step ∈ (initial config).trace ops,
        (step.1.returned step.2).Pairwise (fun r s => r.sequence < s.sequence) ∧
          ((step.1.returned step.2).map ActivationRecord.id).Nodup ∧
          ∀ id, (step.1.perform step.2).log id =
              step.1.log id ++ (step.1.returned step.2).filter (fun r => r.id = id) ∨
            config.retainHistory = false ∧ step.1.Withdraws step.2 id ∧
              step.1.returned step.2 = [] ∧ (step.1.perform step.2).log id = [] := by
  intro e
  have hchronicled : e.Chronicled := chronicled_run config hops
  refine ⟨?_, ?_, ?_, ?_⟩
  · intro id h hhistory
    have hlog := hchronicled.history id
    rw [log_of_history hhistory] at hlog
    exact ⟨hlog.records, hlog.ordered, hlog.chained⟩
  · intro id p hp hknown
    exact (hchronicled.upToDate hp).resolve_left hknown
  · intro hretain
    have hperm := archive_run hops hretain
    refine ⟨?_, hperm, ?_⟩
    · intro step hstep id earlier hearlier
      have hkept : step.1.config.retainHistory = true := by
        rwa [config_of_mem_trace hstep]
      exact (logs_of_mem_trace hops hstep).prefix_of_retain hkept hearlier
    · rw [← (returnedIn_run config ops).2]
      exact hperm.map _
  · intro step hstep
    have hlogs := logs_of_mem_trace hops hstep
    have hordered : ((step.1.returned step.2).map ActivationRecord.sequence).Pairwise (· < ·) := by
      rw [hlogs.numbered]
      exact List.pairwise_lt_range'
    refine ⟨List.pairwise_map.1 hordered, hlogs.ids, fun id => ?_⟩
    refine (hlogs.log id).imp_right fun hlost => ?_
    rw [← config_of_mem_trace hstep]
    exact ⟨hlost.1, hlost.2.1, returned_of_withdraws hlost.2.1, hlost.2.2⟩

/-! ## A constraint that comes back -/

/-- The plan to pull the first permission after its first registration. -/
def firstPlan : PullPlan :=
  ⟨ConstraintId.derive (redelegation ⟨"p"⟩), 1, 0, []⟩

/-- A constraint is pulled, removed, and registered again. -/
def returning : List Operation :=
  [.add (redelegation ⟨"p"⟩), .applyPull firstPlan [] 0, .remove firstPlan.id,
    .add (redelegation ⟨"p"⟩)]

theorem unambiguous_returning : Unambiguous returning := by
  intro c d hc hd _
  simp only [returning, List.mem_cons, Operation.add.injEq, reduceCtorEq, List.not_mem_nil, or_false,
    false_or, or_self] at hc hd
  rw [hc, hd]

/-- The engines after the single steps. -/
theorem run_returning (e : Engine) :
    e.run (returning.take 1) = (e.add (redelegation ⟨"p"⟩)).1 ∧
      e.run (returning.take 2) = ((e.run (returning.take 1)).applyPull firstPlan [] 0).1 ∧
      e.run (returning.take 3) = (e.run (returning.take 2)).perform (.remove firstPlan.id) ∧
      e.run returning = (e.run (returning.take 3)).perform (.add (redelegation ⟨"p"⟩)) :=
  ⟨rfl, rfl, rfl, rfl⟩

/-- The steps of the run, with the engines before them. -/
theorem trace_returning (e : Engine) :
    e.trace returning = [(e, .add (redelegation ⟨"p"⟩)),
      (e.run (returning.take 1), .applyPull firstPlan [] 0),
      (e.run (returning.take 2), .remove firstPlan.id),
      (e.run (returning.take 3), .add (redelegation ⟨"p"⟩))] :=
  rfl

/-- The pull evaluates the constraint. -/
theorem exists_known_returning :
    ∃ p, ((initial {}).run (returning.take 2)).productions[firstPlan.id]? = some p ∧
      p.state ≠ .unknown := by
  have hsplit : Unambiguous (returning.take 1 ++ returning.drop 1) := unambiguous_returning
  have hcoherent := (reached {} (returning.take 1) hsplit.of_append).1
  have hfree : (initial {}).registry.owner? (redelegation ⟨"p"⟩).permission = none := by
    simp [initial, Registry.owner?]
  have hp := (productions_add_of_free hfree (redelegation_lowers _) firstPlan.id).trans (if_pos rfl)
  rw [← (run_returning _).1] at hp
  rw [(run_returning _).2.1]
  rcases hcoherent.pulls firstPlan [] 0 with ⟨_, -, -, hafter, -⟩ | ⟨hgeneration, -⟩
  · rw [hafter]
    rcases exists_right_of_rel ((hcoherent.applies _ (some firstPlan.id) 0).productions _) hp with
      ⟨q, hq, hsettles⟩
    exact ⟨q, hq, fun hunknown => (hsettles.unknown_iff.1 hunknown).2 (Or.inl rfl)⟩
  · exact (hgeneration _ hp rfl).elim

/-- The history that the pull has begun is still there when the constraint has been removed and
registered again. -/
theorem histories_returning :
    Unambiguous returning ∧
      ∃ first later, ((initial {}).run (returning.take 2)).history firstPlan.id = .ok first ∧
        ((initial {}).run returning).history firstPlan.id = .ok later ∧
        first ≠ [] ∧ first <+: later ∧
        (∀ r ∈ later, r.id = firstPlan.id ∧ r.source ≠ r.target ∧ r.target ≠ .unknown) ∧
        (((initial {}).run returning).archive.map ActivationRecord.sequence).Perm
          (List.range' 1 ((initial {}).returnedIn returning).length) := by
  refine ⟨unambiguous_returning, ?_⟩
  have hsplit : Unambiguous (returning.take 2 ++ returning.drop 2) := unambiguous_returning
  rcases exists_known_returning with ⟨p, hp, hknown⟩
  have hfirst : ((initial {}).run (returning.take 2)).history firstPlan.id = .ok p.history := by
    simp only [history, hp]
  have hends := (histories_of_run {} (returning.take 2) hsplit.of_append).2.1 _ p hp hknown
  have hall := histories_of_run {} returning unambiguous_returning
  rcases hall.2.2.1 rfl with ⟨hsteps, -, hnumbers⟩
  have hextends : ∀ (e : Engine) (op : Operation), (e, op) ∈ (initial {}).trace returning →
      ∀ id earlier, e.history id = .ok earlier →
        ∃ later, (e.perform op).history id = .ok later ∧ earlier <+: later :=
    fun e op => hsteps (e, op)
  rw [trace_returning] at hextends
  -- the removal and the second registration both extend the history
  rcases hextends _ _ (List.mem_cons_of_mem _ (List.mem_cons_of_mem _ List.mem_cons_self)) _ _
    hfirst with ⟨middle, hmiddle, hkept⟩
  rw [← (run_returning _).2.2.1] at hmiddle
  rcases hextends _ _ (List.mem_cons_of_mem _ (List.mem_cons_of_mem _ (List.mem_cons_of_mem _
    List.mem_cons_self))) _ _ hmiddle with ⟨later, hlater, hkept'⟩
  rw [← (run_returning _).2.2.2] at hlater
  refine ⟨p.history, later, hfirst, hlater, ?_, hkept.trans hkept', (hall.1 _ _ hlater).1, hnumbers⟩
  intro hnone
  rw [hnone] at hends
  cases hends

end Engine
end Mandate
