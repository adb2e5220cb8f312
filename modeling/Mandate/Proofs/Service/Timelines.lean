import Mandate.Proofs.Service.Outcomes
import Mandate.Proofs.Service.Scheduling

/-!
# Timelines with any provider

Whatever its provider does, a timeline takes the passages of its calls in one of the orders that are
possible.  So what holds of calls in any order holds of the calls of a timeline, and their outcomes
are those of stories.

Main results:

- Definition `Timeline.Matches`: the calls of the timeline are where their stories have come to.
- Theorem `Timeline.Occurs.perform`: an action of the timeline is a passage of a call, or none.
- Theorem `Timeline.occurs_of_handlings`: whatever is done with a timeline, its state occurs.
- Theorem `Timeline.Occurs.story_of_join`: the outcome of a call is that of its story.
- Theorems `Timeline.Occurs.join_ne_notCompiled`, `Timeline.Occurs.snapshot`: so no call fails because
  a constraint cannot be compiled, and queries see what the engine has come to.
-/

namespace Mandate
namespace Timeline

/-- Every call of the timeline waits for what its story has come to.  There may also be stories of
calls that have been collected. -/
structure Matches (t : Timeline) (w : Traffic) : Prop where
  service : w.service = t.service
  calls : ∀ c ∈ t.calls, ∃ story, w.calls c.id = some story ∧ story.stage = c.stage
  fresh : ∀ id, w.calls id ≠ none → id.number < t.callCount

namespace Matches

variable {t after : Timeline} {w : Traffic}

/-- What happens to time, to the provider, to fetches and to unread news has no story. -/
theorem of_same (h : t.Matches w) (hservice : after.service = t.service)
    (hcalls : after.calls = t.calls) (hcount : after.callCount = t.callCount) :
    after.Matches w where
  service := by rw [hservice, h.service]
  calls := by rw [hcalls]; exact h.calls
  fresh := by rw [hcount]; exact h.fresh

theorem serving (h : t.Matches w) (s : Service) :
    { t with service := s }.Matches { w with service := s } :=
  { h with service := rfl }

/-- A call takes a passage, in the timeline and in its story. -/
theorem place (h : t.Matches w) {id : CallId} (hid : id.number < t.callCount) {story : Story}
    {next : Service × Stage} (hservice : story.last.after = next.1) (hstage : story.stage = next.2) :
    (t.place id next).Matches (w.record id story) := by
  rcases t.exists_place id next with ⟨call, rfl, hcall, hplaced, -, hcalls, hcount, -⟩
  constructor
  · exact hservice.trans hplaced.symm
  · intro c hc
    rw [hcalls, mem_setCall] at hc
    rw [Traffic.calls_record]
    rcases hc with rfl | ⟨hc, hne⟩
    · exact ⟨story, if_pos rfl, hstage.trans hcall.symm⟩
    · rw [if_neg hne]
      exact h.calls c hc
  · intro other hother
    rw [hcount]
    rw [Traffic.calls_record] at hother
    split at hother
    · rename_i hsame
      rwa [hsame]
    · exact h.fresh other hother

theorem number_lt (h : t.Matches w) {c : Call} (hc : c ∈ t.calls) : c.id.number < t.callCount := by
  rcases h.calls c hc with ⟨story, hstory, -⟩
  exact h.fresh c.id (by rw [hstory]; exact Option.some_ne_none _)

end Matches

/-- The calls of the service may have brought it to the state of the timeline. -/
def Occurs (config : EngineConfig) (t : Timeline) : Prop :=
  ∃ w, (Traffic.start config).Reaches w ∧ t.Matches w

namespace Occurs

variable {config : EngineConfig} {t after : Timeline}

/-- What happens to time, to the provider, to fetches and to unread news changes no story. -/
theorem of_same (h : t.Occurs config) (hservice : after.service = t.service)
    (hcalls : after.calls = t.calls) (hcount : after.callCount = t.callCount) :
    after.Occurs config := by
  rcases h with ⟨w, hreaches, hmatches⟩
  exact ⟨w, hreaches, hmatches.of_same hservice hcalls hcount⟩

/-- Fetches that fail are reported, and reports are read. -/
theorem reporting (h : t.Occurs config) (journal : List Event) :
    { t with service := { t.service with journal } }.Occurs config := by
  rcases h with ⟨w, hreaches, hmatches⟩
  have hnext := hmatches.serving { t.service with journal }
  rw [← hmatches.service] at hnext ⊢
  exact ⟨_, hreaches.tail (.reported journal), hnext⟩

/-- News are applied. -/
theorem pushing (h : t.Occurs config) (news : List FactUpdate) (now : Occasion) :
    { t with service := (t.service.updateFacts news now).1 }.Occurs config := by
  rcases h with ⟨w, hreaches, hmatches⟩
  have hnext := hmatches.serving (t.service.updateFacts news now).1
  rw [← hmatches.service] at hnext ⊢
  exact ⟨_, hreaches.tail (.pushed news now), hnext⟩

/-- A call goes on, in a timeline whose provider, time, fetches and unread news may be others by
now. -/
theorem place (h : t.Occurs config) {c : Call} (hc : c ∈ t.calls) {next : Service × Stage}
    (hnext : t.service.Continues c.stage next) (hservice : after.service = t.service)
    (hcalls : after.calls = t.calls) (hcount : after.callCount = t.callCount) :
    (after.place c.id next).Occurs config := by
  rcases h with ⟨w, hreaches, hmatches⟩
  rcases hmatches.calls c hc with ⟨story, hstory, hstage⟩
  have hid : c.id.number < after.callCount := hcount ▸ hmatches.number_lt hc
  rw [← hmatches.service, ← hstage] at hnext
  exact ⟨_, hreaches.tail (.goOn hstory hnext),
    (hmatches.of_same hservice hcalls hcount).place hid rfl rfl⟩

/-- An action of the timeline is a passage of a call, or the calls have nothing to do with it. -/
theorem perform (h : t.Occurs config) {a : Action} (ha : t.Possible a) :
    (t.perform a).Occurs config := by
  cases a with
  | enterGate id keys reply =>
    rcases ha with ⟨hopen, c, hc, rfl, hstage⟩
    exact h.place hc (hstage ▸ .enterGate hopen) rfl rfl rfl
  | unsubscribe c keys wanted reply =>
    rcases ha with ⟨hc, hstage⟩
    exact h.place hc (hstage ▸ .unsubscribed c.wake.isSome) rfl rfl rfl
  | subscribe id keys reply =>
    rcases ha with ⟨c, hc, rfl, hstage⟩
    exact h.place hc (hstage ▸ .resubscribed _) rfl rfl rfl
  | endPull id plan retries reply =>
    rcases ha with ⟨c, hc, rfl, hstage⟩
    exact h.place hc (hstage ▸ .fetched _ t.now) rfl rfl rfl
  | endFetch index key answered =>
    rcases t.service.exists_resolve key (t.fetchResult key answered) with ⟨journal, hjournal⟩
    exact (h.reporting journal).of_same hjournal rfl rfl
  | startFetch index key => exact h.of_same rfl rfl rfl
  | listen => exact (h.pushing t.inbox t.now).of_same rfl rfl rfl

/-- Actions and the passing of time lead to states that occur. -/
theorem lasts (config : EngineConfig) : Lasts (Occurs config) where
  perform h ha := h.perform ha
  later h _ := h.of_same rfl rfl rfl

/-! ## Whatever is done with a timeline -/

/-- A call begins. -/
theorem begin (h : t.Occurs config) (request : Request) :
    (t.begin request).1.Occurs config := by
  unfold Timeline.begin
  refine (lasts config).settle ?_
  rcases h with ⟨w, hreaches, hmatches⟩
  have hfree : w.calls ⟨t.callCount⟩ = none := by
    by_contra hthere
    exact Nat.lt_irrefl _ (hmatches.fresh _ hthere)
  have hcounted : { t with callCount := t.callCount + 1 }.Matches w :=
    { hmatches with fresh := fun id hid => Nat.lt_succ_of_lt (hmatches.fresh id hid) }
  have hreached := hreaches.tail (.begin hfree request)
  rw [← hmatches.service]
  exact ⟨_, hreached, hcounted.place (Nat.lt_succ_self _) rfl rfl⟩

/-- A call is collected, whether it has ended or not. -/
theorem collect (h : t.Occurs config) (id : CallId) :
    { t with calls := t.calls.filter (·.id ≠ id) }.Occurs config := by
  rcases h with ⟨w, hreaches, hmatches⟩
  exact ⟨w, hreaches,
    { hmatches with calls := fun c hc => hmatches.calls c (List.mem_of_mem_filter hc) }⟩

theorem join (h : t.Occurs config) (id : CallId) : (t.join id).1.Occurs config :=
  ((lasts config).advance _ _ _ h).collect id

theorem updateFacts (h : t.Occurs config) (news : List FactUpdate) :
    (t.updateFacts news).1.Occurs config :=
  (lasts config).settle (h.pushing news t.now)

/-- The provider changes. -/
theorem feed (h : t.Occurs config) (f : Provider → FactUpdate → Provider × List Delivery)
    (news : List FactUpdate) : (t.feed f news).Occurs config :=
  (lasts config).feed (fun _ _ ht => ht.of_same rfl rfl rfl) h news

theorem of_use (h : t.Occurs config) (huse : t.Use after) : after.Occurs config := by
  cases huse with
  | begin request => exact h.begin request
  | join id _ => exact h.join id
  | sleep milliseconds => exact (lasts config).advance _ _ _ h
  | updateFacts news => exact h.updateFacts news
  | update news => exact h.feed _ news
  | push news => exact h.feed _ news
  | startListening =>
    have hlistening : { t with listening := true }.Occurs config := h.of_same rfl rfl rfl
    exact (lasts config).settle hlistening
  | transitions => exact h.of_same rfl rfl rfl
  | takeJournal => exact h.reporting []
  | script _ => exact h.of_same rfl rfl rfl

end Occurs

/-- What may be done with a timeline whose provider may do anything. -/
inductive Handling (t : Timeline) : Timeline → Prop
  | use {after : Timeline} (h : t.Use after) : Handling t after
  /-- A call is collected, or given up. -/
  | join (id : CallId) : Handling t (t.join id).1
  /-- From now on the provider does something else. -/
  | script (provider : Provider) : Handling t { t with provider }

section Handling

variable {config : EngineConfig} {t : Timeline} {id : CallId} {outcome : Outcome}

/-- Whatever the provider does and whatever is done with a timeline, the calls of the service may
have brought it to its state. -/
theorem occurs_of_handlings {provider : Provider} {listening : Bool}
    (h : Relation.ReflTransGen Handling { service := .ofConfig config, provider, listening } t) :
    t.Occurs config := by
  induction h with
  | refl =>
    exact ⟨_, .refl, rfl, fun _ hc => (List.not_mem_nil hc).elim, fun _ hid => (hid rfl).elim⟩
  | tail _ hhandling ih =>
    cases hhandling with
    | use huse => exact ih.of_use huse
    | join id => exact ih.join id
    | script provider => exact ih.of_same rfl rfl rfl

namespace Occurs

/-- The outcome that is collected is that of a story. -/
theorem story_of_join (h : t.Occurs config) (hdone : (t.join id).2 = some outcome) :
    ∃ w story, (Traffic.start config).Reaches w ∧ w.service = (t.join id).1.service ∧
      w.calls id = some story ∧ story.stage = .done outcome := by
  rcases (lasts config).advance (fun t => (t.outcome? id).isSome) none (t.budget + 1) h with
    ⟨w, hreaches, hmatches⟩
  rcases exists_of_outcome? hdone with ⟨c, hc, rfl, hstage⟩
  rcases hmatches.calls c hc with ⟨story, hstory, hsame⟩
  exact ⟨w, story, hreaches, hmatches.service, hstory, hsame.trans hstage⟩

/-- No call ends because a constraint cannot be compiled. -/
theorem join_ne_notCompiled (h : t.Occurs config) (id : CallId) (target : ConstraintId)
    (reason : CompileError) : (t.join id).2 ≠ some (.error (.notCompiled target reason)) := by
  intro hdone
  rcases h.story_of_join hdone with ⟨w, story, hreaches, -, hstory, hstage⟩
  exact Traffic.ne_notCompiled hreaches hstory target reason hstage

/-- Whatever the provider does, queries see what the engine has come to. -/
theorem snapshot (h : t.Occurs config) : t.service.snapshot = t.service.engine.snapshot := by
  rcases h with ⟨w, hreaches, hmatches⟩
  rcases Traffic.exists_performs hreaches with ⟨ops, hperforms, -⟩
  rw [← hmatches.service]
  exact hperforms.snapshot rfl

end Occurs

end Handling

end Timeline
end Mandate
