import Mathlib.Logic.Function.Basic
import Mathlib.Logic.Relation
import Mandate.Proofs.Service.Replies
import Mandate.Service.Timeline

/-!
# Calls with any provider

Any number of calls side by side, with a provider that may refuse, fail or be late whenever it is
asked for something.  The calls take their passages in any order; between them news are pushed.  Of
every call it is known what it was asked for and what each of its passages has done.

Main results:

- Definitions `Passage`, `Story`, `Traffic`, `Traffic.Step`: what has happened and what can happen.
- Theorem `Traffic.story_induction`: what the beginning of a call establishes, and all that follows
  preserves, holds of every call.
- Theorem `Traffic.exists_performs`: the engine has performed a run, in which nothing was registered
  but what calls have asked for.
- Theorem `Traffic.exists_inside`: when the gate is taken, a call is behind it.
- Theorem `Traffic.can_go_on`: a call that has not ended can go on, or waits for one that can.
-/

namespace Mandate

/-- What a call has done from one wait to the next, and what it waits for then. -/
structure Passage where
  before : Service
  after : Service
  stage : Stage

/-- What has become of a call so far. -/
structure Story where
  request : Request
  /-- The passages before the last one, the first one in front. -/
  earlier : List Passage := []
  last : Passage

namespace Story

/-- What the call waits for. -/
def stage (story : Story) : Stage :=
  story.last.stage

/-- All passages of the call, the first one in front. -/
def passages (story : Story) : List Passage :=
  story.earlier ++ [story.last]

/-- The passage with which the call began. -/
def first (story : Story) : Passage :=
  story.earlier.head?.getD story.last

/-- A call begins. -/
def begin (s : Service) (request : Request) : Story :=
  { request, last := ⟨s, (s.begin request).1, (s.begin request).2⟩ }

/-- The call has gone on. -/
def goOn (story : Story) (s : Service) (next : Service × Stage) : Story :=
  ⟨story.request, story.passages, ⟨s, next.1, next.2⟩⟩

variable {story : Story} {s : Service} {next : Service × Stage}

theorem mem_passages_iff {p : Passage} :
    p ∈ story.passages ↔ p ∈ story.earlier ∨ p = story.last := by
  rw [passages, List.mem_append, List.mem_singleton]

theorem first_goOn : (story.goOn s next).first = story.first := by
  unfold first goOn passages
  cases story.earlier <;> rfl

theorem length_passages_goOn :
    (story.goOn s next).passages.length = story.passages.length + 1 := by
  simp [passages, goOn]

end Story

/-- The service and the calls that have begun. -/
structure Traffic where
  service : Service
  calls : CallId → Option Story := fun _ => none

namespace Traffic

/-- Nothing has happened yet. -/
def start (config : EngineConfig) : Traffic where
  service := .ofConfig config

/-- A call has taken a passage. -/
def record (w : Traffic) (id : CallId) (story : Story) : Traffic :=
  { service := story.last.after, calls := Function.update w.calls id (some story) }

/-- The service is called. -/
def ask (w : Traffic) (id : CallId) (request : Request) : Traffic :=
  w.record id (.begin w.service request)

/-- What can happen next. -/
inductive Step (w : Traffic) : Traffic → Prop
  /-- A call begins. -/
  | begin {id : CallId} (hid : w.calls id = none) (request : Request) :
      Step w (w.ask id request)
  /-- A call goes on. -/
  | goOn {id : CallId} {story : Story} {next : Service × Stage} (hid : w.calls id = some story)
      (hnext : w.service.Continues story.stage next) :
      Step w (w.record id (story.goOn w.service next))
  /-- News are pushed. -/
  | pushed (news : List FactUpdate) (now : Occasion) :
      Step w { w with service := (w.service.updateFacts news now).1 }
  /-- Something is reported to the console, or the reports are read. -/
  | reported (journal : List Event) : Step w { w with service := { w.service with journal } }

/-- The second state may come after the first one. -/
def Reaches : Traffic → Traffic → Prop :=
  Relation.ReflTransGen Step

theorem calls_record (w : Traffic) (id other : CallId) (story : Story) :
    (w.record id story).calls other = if other = id then some story else w.calls other := by
  unfold record
  exact Function.update_apply w.calls id (some story) other

theorem calls_record_self (w : Traffic) (id : CallId) (story : Story) :
    (w.record id story).calls id = some story := by
  rw [calls_record, if_pos rfl]

/-! ## The run of the engine -/

/-- The constraint is one that a call has asked to register, and has passed the check. -/
def Asked (w : Traffic) (limits : Limits) (c : Constraint) : Prop :=
  ∃ id story, w.calls id = some story ∧ story.request.checked? limits = some (.ok c)

section Run

variable {config : EngineConfig} {w after : Traffic} {c : Constraint}

theorem asked_record {limits : Limits} {id : CallId} {story : Story}
    (hid : ∀ old, w.calls id = some old → story.request = old.request)
    (hasked : w.Asked limits c) : (w.record id story).Asked limits c := by
  rcases hasked with ⟨other, old, hother, hchecked⟩
  by_cases hsame : other = id
  · rw [hsame] at hother
    refine ⟨id, story, calls_record_self w id _, ?_⟩
    rw [hid old hother]
    exact hchecked
  · exact ⟨other, old, by rw [calls_record, if_neg hsame, hother], hchecked⟩

/-- What calls have asked for remains what they have asked for. -/
theorem Step.asked {limits : Limits} (h : Step w after) (hasked : w.Asked limits c) :
    after.Asked limits c := by
  cases h with
  | begin hid request => exact asked_record (fun old hold => nomatch hid.symm.trans hold) hasked
  | @goOn id story next hid _ =>
    refine asked_record (fun old hold => ?_) hasked
    rw [hid, Option.some.injEq] at hold
    rw [← hold]
    rfl
  | pushed news now => exact hasked
  | reported journal => exact hasked

/-- A step performs operations of the engine, and registers nothing but what a call asks for. -/
theorem Step.exists_performs (h : Step w after) :
    ∃ ops, w.service.Performs ops after.service ∧
      ∀ c, .add c ∈ ops → after.Asked w.service.config.limits c := by
  cases h with
  | @begin id hid request =>
    rcases w.service.exists_performs_begin request with ⟨ops, hperforms, hops⟩
    exact ⟨ops, hperforms, fun c hc => ⟨id, _, calls_record_self w id _, hops c hc⟩⟩
  | goOn hid hnext =>
    rcases hnext.exists_performs with ⟨ops, hperforms, hops⟩
    exact ⟨ops, hperforms, fun c hc => (hops c hc).elim⟩
  | pushed news now =>
    exact ⟨_, w.service.performs_updateFacts news now, fun c hc => nomatch List.mem_singleton.1 hc⟩
  | reported journal =>
    exact ⟨[], w.service.performs_nothing w.service.subscribed w.service.gateTaken journal,
      fun c hc => (List.not_mem_nil hc).elim⟩

/-- The engine has performed a run, in which nothing was registered but what calls have asked for. -/
theorem exists_performs (h : (start config).Reaches w) :
    ∃ ops, (Service.ofConfig config).Performs ops w.service ∧
      ∀ c, .add c ∈ ops → w.Asked config.limits c := by
  induction h with
  | refl =>
    exact ⟨[], Service.performs_nothing _ _ _ _, fun c hc => (List.not_mem_nil hc).elim⟩
  | @tail before after _ hstep ih =>
    rcases ih with ⟨ops, hperforms, hops⟩
    rcases hstep.exists_performs with ⟨more, hmore, hasked⟩
    refine ⟨ops ++ more, hperforms.trans hmore, fun c hc => ?_⟩
    rcases List.mem_append.1 hc with hold | hnew
    · exact hstep.asked (hops c hold)
    · have hconfig : before.service.config = config := hperforms.config
      exact hconfig ▸ hasked c hnew

end Run

/-! ## What holds of every call -/

/-- What holds of a call when it begins, and still does after every passage, holds of every call.
Whenever a call takes a passage, the service has performed a run. -/
theorem story_induction {config : EngineConfig} {P : Story → Prop}
    (hbegin : ∀ s ops request, (Service.ofConfig config).Performs ops s → P (.begin s request))
    (hgoOn : ∀ s ops story next, (Service.ofConfig config).Performs ops s → P story →
      s.Continues story.stage next → P (story.goOn s next))
    {w : Traffic} (h : (start config).Reaches w) {id : CallId} {story : Story}
    (hid : w.calls id = some story) : P story := by
  induction h generalizing id story with
  | refl => cases hid
  | @tail w after hreaches hstep ih =>
    rcases exists_performs hreaches with ⟨ops, hperforms, -⟩
    cases hstep with
    | begin hnone request =>
      rw [ask, calls_record] at hid
      split at hid
      · cases hid
        exact hbegin w.service ops request hperforms
      · exact ih hid
    | goOn hthere hnext =>
      rw [calls_record] at hid
      split at hid
      · cases hid
        exact hgoOn w.service ops _ _ hperforms (ih hthere) hnext
      · exact ih hid
    | pushed news now => exact ih hid
    | reported journal => exact ih hid

/-! ## Calls do not get stuck -/

section Progress

variable {config : EngineConfig} {w : Traffic}

/-- When the gate is taken, a call is behind it. -/
theorem exists_inside (h : (start config).Reaches w) (htaken : w.service.gateTaken = true) :
    ∃ id story, w.calls id = some story ∧ story.stage.isInside = true := by
  induction h with
  | refl => cases htaken
  | @tail w after hreaches hstep ih =>
    rcases exists_performs hreaches with ⟨ops, hperforms, -⟩
    cases hstep with
    | @begin id hnone request =>
      rcases Engine.rooted_run config.registry ops with ⟨spare, hrooted⟩
      have hengine : w.service.engine = (Engine.initial config.registry).run ops :=
        hperforms.engine
      rw [← hengine] at hrooted
      have hchanges := Service.changes_begin hrooted request
      rcases ih (hchanges.gateTaken ▸ htaken) with ⟨other, story, hother, hinside⟩
      have hne : other ≠ id := by
        rintro rfl
        rw [hnone] at hother
        cases hother
      exact ⟨other, story, by rw [ask, calls_record, if_neg hne, hother], hinside⟩
    | @goOn id story next hthere hnext =>
      rcases hnext.cases with ⟨-, hkeeps⟩ | ⟨plan, retries, reply, news, now, hstage, rfl⟩
      · exact ⟨id, story.goOn w.service next, calls_record_self w id _,
          hkeeps.gateTaken htaken⟩
      · -- the end of a pull has nothing to do with the gate
        have hgate := (w.service.goesOn_finishPull plan news now).gateTaken
        rw [← (w.service.fetched_cases plan retries reply news now).1] at hgate
        rcases ih (hgate ▸ htaken) with ⟨other, story', hother, hinside⟩
        have hne : other ≠ id := by
          rintro rfl
          rw [hthere, Option.some.injEq] at hother
          rw [← hother, hstage] at hinside
          cases hinside
        exact ⟨other, story', by rw [calls_record, if_neg hne, hother], hinside⟩
    | pushed news now => exact ih htaken
    | reported journal => exact ih htaken

/-- The call can take its next passage now. -/
def CanGoOn (w : Traffic) (id : CallId) : Prop :=
  ∃ story next, w.calls id = some story ∧ w.service.Continues story.stage next

/-- A call that has not ended can go on, or waits at the gate for another one that can. -/
theorem can_go_on (h : (start config).Reaches w) {id : CallId} {story : Story}
    (hid : w.calls id = some story) (hdone : story.stage.isDone = false) :
    w.CanGoOn id ∨ ∃ keys reply other story', story.stage = .gate keys reply ∧
      w.calls other = some story' ∧ story'.stage.isInside = true ∧ w.CanGoOn other := by
  by_cases hwaits : ∃ keys reply, story.stage = .gate keys reply ∧ w.service.gateTaken = true
  · rcases hwaits with ⟨keys, reply, hgate, htaken⟩
    rcases exists_inside h htaken with ⟨other, story', hother, hinside⟩
    rcases w.service.exists_continues_of_isInside hinside with ⟨next, hnext⟩
    exact Or.inr ⟨keys, reply, other, story', hgate, hother, hinside, story', next, hother, hnext⟩
  · have hopen : ∀ keys reply, story.stage = .gate keys reply → w.service.gateTaken = false := by
      intro keys reply hgate
      rw [← Bool.not_eq_true]
      exact fun htaken => hwaits ⟨keys, reply, hgate, htaken⟩
    rcases Service.exists_continues hdone hopen with ⟨next, hnext⟩
    exact Or.inl ⟨story, next, hid, hnext⟩

/-- A call takes no more than seven passages. -/
theorem length_passages_le (h : (start config).Reaches w) {id : CallId} {story : Story}
    (hid : w.calls id = some story) :
    story.passages.length + story.stage.remaining ≤ maxRetries + 5 := by
  refine story_induction
    (P := fun story => story.passages.length + story.stage.remaining ≤ maxRetries + 5) ?_ ?_ h hid
  · intro s ops request _
    have hle := s.remaining_begin_le request
    exact (Nat.add_comm _ _).trans_le (Nat.succ_le_succ hle)
  · intro s ops story next _ hle hnext
    have hlt := hnext.remaining_lt
    rw [Story.length_passages_goOn]
    have hstage : (story.goOn s next).stage = next.2 := rfl
    rw [hstage]
    omega

end Progress

end Traffic
end Mandate
