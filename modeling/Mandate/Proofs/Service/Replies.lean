import Mandate.Proofs.Network.Admissible
import Mandate.Proofs.Service.Passages

/-!
# Replies

A call that has registered or removed a constraint has settled its reply, and whatever happens to it
afterwards, it ends with that reply.  A call that has not done so has changed nothing.  A check ends
with a status, or finds nothing registered.

Main results:

- Theorem `Engine.exists_duplicate`: why an admissible constraint is not registered.
- Definition `Stage.Replies`, theorem `Service.Continues.replies`: a reply that is settled stays so.
- Definition `Stage.Checks`, theorem `Service.Continues.checks`: what becomes of a check.
- Theorems `Service.beginAdd_cases`, `Service.remove_cases`: a call settles its reply when it begins,
  or is refused and changes nothing but the reports.
- Definition `Stage.remaining`, theorem `Service.Continues.remaining_lt`: a bound on the passages that
  a call has before it.
-/

namespace Mandate

/-- An admissible constraint is refused only if its permission has another constraint. -/
theorem Engine.exists_duplicate {e : Engine} {limits : Limits} {c : Constraint}
    {error : ServiceError} (hcheck : limits.check c = none) (h : (e.add c).2 = .error error) :
    ∃ existing, error = .duplicate c.permission existing := by
  cases (e.add_error_iff c error).1 h with
  | duplicate _ _ _ => exact ⟨_, rfl⟩
  | notCompiled _ hcompile =>
    rw [Limits.check_eq_ok_of_check hcheck] at hcompile
    cases hcompile

namespace Stage

/-- The reply of the call is settled. -/
def Replies (reply : Reply) : Stage → Prop
  | .gate _ r | .unsubscribing _ _ r | .subscribing _ r => r = reply
  | .pulling _ _ r => r = some reply
  | .done outcome => outcome = .ok reply

/-- The call checks a constraint: it pulls its facts, or has told a status, or has found nothing. -/
def Checks (id : ConstraintId) : Stage → Prop
  | .pulling plan _ r => plan.id = id ∧ r = none
  | .done outcome => (∃ status, outcome = .ok (.status status)) ∨ outcome = .error (.notFound id)
  | _ => False

/-- The call has asked the provider for something and waits for the answer. -/
def asks : Stage → Bool
  | .unsubscribing _ _ _ | .subscribing _ _ | .pulling _ _ _ => true
  | _ => false

/-- The call has come to its end. -/
def isDone : Stage → Bool
  | .done _ => true
  | _ => false

/-- A bound on the passages that the call has before it. -/
def remaining : Stage → Nat
  | .gate _ _ => maxRetries + 4
  | .unsubscribing _ _ _ => maxRetries + 3
  | .subscribing _ _ => maxRetries + 2
  | .pulling _ retries _ => retries + 1
  | .done _ => 0

end Stage

namespace Service

/-! ## The end of a call -/

section Pull

variable {s : Service} {reply : Reply} {id : ConstraintId} {retries : Nat}

/-- The only error that a pull ends with. -/
theorem eq_notFound_of_status {e : Engine} {error : ServiceError} (h : e.status id = .error error) :
    error = .notFound id ∧ e.productions[id]? = none := by
  unfold Engine.status orNotFound at h
  cases hp : e.productions[id]? with
  | none =>
    rw [hp] at h
    exact ⟨(Except.error.inj h).symm, rfl⟩
  | some p =>
    rw [hp] at h
    cases h

/-- Whether the constraint is still there or not, a settled reply is given. -/
theorem replies_endPull {result : Except ServiceError ActivationStatus}
    (h : ∀ error, result = .error error → ∃ id, error = .notFound id) :
    (s.endPull (some reply) result).2.Replies reply := by
  cases result with
  | ok status => rfl
  | error error =>
    rcases h error rfl with ⟨id, rfl⟩
    rfl

theorem replies_beginPull (s : Service) (id : ConstraintId) (retries : Nat) (reply : Reply) :
    (s.beginPull id retries (some reply)).2.Replies reply := by
  unfold beginPull Engine.pullPlan
  cases s.engine.productions[id]? with
  | some p => rfl
  | none => exact replies_endPull fun error herror => ⟨id, (Except.error.inj herror).symm⟩

theorem replies_fetched (s : Service) (plan : PullPlan) (retries : Nat) (reply : Reply)
    (news : List FactUpdate) (now : Occasion) :
    (s.fetched plan retries (some reply) news now).2.Replies reply := by
  unfold fetched
  rcases s.finishPull_cases plan news now with ⟨-, hpull⟩ | hpull | ⟨status, batch, hpull, -⟩
  · simp only [hpull]
    exact replies_endPull fun error herror => ⟨plan.id, (Except.error.inj herror).symm⟩
  · cases retries with
    | zero =>
      simp only [hpull]
      exact replies_endPull fun error herror => ⟨plan.id, (eq_notFound_of_status herror).1⟩
    | succ retries =>
      simp only [hpull]
      exact replies_beginPull s plan.id retries reply
  · simp only [hpull]
    exact replies_endPull fun error herror => nomatch herror

/-- A check plans a pull, or finds that nothing is registered. -/
theorem checks_beginPull (s : Service) (id : ConstraintId) (retries : Nat) :
    (s.beginPull id retries none).2.Checks id ∧
      ∀ error, (s.beginPull id retries none).2 = .done (.error error) →
        s.engine.productions[id]? = none := by
  unfold beginPull Engine.pullPlan
  cases s.engine.productions[id]? with
  | some p => exact ⟨⟨rfl, rfl⟩, fun error herror => nomatch herror⟩
  | none => exact ⟨Or.inr rfl, fun _ _ => rfl⟩

theorem checks_fetched (s : Service) (plan : PullPlan) (retries : Nat) (news : List FactUpdate)
    (now : Occasion) :
    (s.fetched plan retries none news now).2.Checks plan.id ∧
      ∀ error, (s.fetched plan retries none news now).2 = .done (.error error) →
        s.engine.productions[plan.id]? = none := by
  unfold fetched
  rcases s.finishPull_cases plan news now with ⟨hgone, hpull⟩ | hpull | ⟨status, batch, hpull, -⟩
  · simp only [hpull]
    exact ⟨Or.inr rfl, fun _ _ => hgone⟩
  · cases retries with
    | zero =>
      simp only [hpull]
      cases hstatus : s.engine.status plan.id with
      | ok status => exact ⟨Or.inl ⟨status, rfl⟩, fun error herror => nomatch herror⟩
      | error error =>
        rcases eq_notFound_of_status hstatus with ⟨rfl, hgone⟩
        exact ⟨Or.inr rfl, fun _ _ => hgone⟩
    | succ retries =>
      simp only [hpull]
      exact checks_beginPull s plan.id retries
  · simp only [hpull]
    exact ⟨Or.inl ⟨status, rfl⟩, fun error herror => nomatch herror⟩

end Pull

/-! ## Settled replies -/

section Replies

variable {s : Service} {stage : Stage} {next : Service × Stage} {reply : Reply}

theorem replies_proceed (s : Service) (reply : Reply) : (s.proceed reply).2.Replies reply := by
  unfold proceed
  split
  · exact replies_beginPull s _ _ _
  · rfl

theorem replies_synchronize (s : Service) (keys : List FactKey) (reply : Reply) :
    (s.synchronize keys reply).2.Replies reply := by
  unfold synchronize
  split
  · exact replies_proceed s reply
  · rfl

theorem replies_resubscribe (s : Service) (wanted : List FactKey) (reply : Reply) :
    (s.resubscribe wanted reply).2.Replies reply := by
  unfold resubscribe
  dsimp only
  split
  · exact replies_proceed _ reply
  · rfl

theorem replies_enterGate (s : Service) (keys : List FactKey) (reply : Reply) :
    (s.enterGate keys reply).2.Replies reply := by
  unfold enterGate
  dsimp only
  split
  · exact replies_resubscribe _ _ reply
  · rfl

/-- A reply that is settled stays so. -/
theorem Continues.replies (h : s.Continues stage next) (hreply : stage.Replies reply) :
    next.2.Replies reply := by
  cases h with
  | enterGate _ =>
    obtain rfl : _ = reply := hreply
    exact replies_enterGate s _ _
  | unsubscribed agreed =>
    obtain rfl : _ = reply := hreply
    exact replies_resubscribe _ _ _
  | resubscribed agreed =>
    obtain rfl : _ = reply := hreply
    exact replies_proceed _ _
  | fetched news now =>
    obtain rfl : _ = some reply := hreply
    exact replies_fetched s _ _ reply news now

/-- A check goes on as a check, and fails only when it finds nothing registered. -/
theorem Continues.checks {id : ConstraintId} (h : s.Continues stage next)
    (hchecks : stage.Checks id) :
    next.2.Checks id ∧ ∀ error, next.2 = .done (.error error) → s.engine.productions[id]? = none := by
  cases h with
  | fetched news now =>
    rcases hchecks with ⟨rfl, rfl⟩
    exact checks_fetched s _ _ news now
  | _ => exact hchecks.elim

end Replies

/-! ## The beginning of a call -/

section Begin

variable {s : Service}

theorem begin_of_checked {request : Request} {checked : Except Rejection Constraint}
    (h : request.checked? s.config.limits = some checked) :
    s.begin request = s.beginAdd checked := by
  cases request with
  | add c =>
    cases h
    rfl
  | addText text =>
    cases h
    rfl
  | _ => cases h

/-- A constraint that passes the check is admissible. -/
theorem check_of_checked {limits : Limits} {request : Request} {c : Constraint}
    (h : request.checked? limits = some (.ok c)) : limits.check c = none := by
  cases request with
  | add d =>
    rcases Limits.accept_eq_ok_iff.1 (Option.some.inj h) with ⟨rfl, hcheck⟩
    exact hcheck
  | addText text => exact Limits.check_of_decode (Option.some.inj h)
  | _ => cases h

/-- A registration settles its reply at once, or is refused and changes nothing but the reports. -/
theorem beginAdd_cases (s : Service) (checked : Except Rejection Constraint) :
    (∃ c registered, checked = .ok c ∧ (s.engine.add c).2 = .ok registered ∧
        (s.beginAdd checked).2.Replies (.registered registered.id registered.kind.old?)) ∨
      ∃ error journal, s.beginAdd checked = ({ s with journal }, .done (.error error)) ∧
        ((∃ reason, checked = .error reason ∧ error = .rejected reason) ∨
          ∃ c, checked = .ok c ∧ (s.engine.add c).2 = .error error) := by
  cases checked with
  | error reason => exact Or.inr ⟨_, s.journal, rfl, Or.inl ⟨reason, rfl, rfl⟩⟩
  | ok c =>
    rcases s.register_cases c with
      ⟨registered, hadd, hreply, -⟩ | ⟨error, journal, hadd, hsame⟩
    · refine Or.inl ⟨c, registered, rfl, hadd, ?_⟩
      simp only [beginAdd, hreply]
      cases registered.kind with
      | unchanged => rfl
      | added => exact replies_synchronize _ _ _
      | replaced old => exact replies_synchronize _ _ _
    · refine Or.inr ⟨error, journal, ?_, Or.inr ⟨c, rfl, hadd⟩⟩
      simp only [beginAdd, hsame]

/-- A removal settles its reply at once, or finds nothing registered. -/
theorem remove_cases (s : Service) (id : ConstraintId) :
    (∃ removed, (s.engine.remove id).2 = .ok removed ∧
        (s.begin (.remove id)).2.Replies (.removed removed.constraint)) ∨
      ((s.begin (.remove id)).2 = .done (.error (.notFound id)) ∧
        s.engine.productions[id]? = none) := by
  rcases s.unregister_cases id with ⟨removed, hremove, hreply, -⟩ | ⟨journal, hgone, hsame⟩
  · refine Or.inl ⟨removed, hremove, ?_⟩
    simp only [begin, hreply]
    exact replies_synchronize _ _ _
  · refine Or.inr ⟨?_, hgone⟩
    simp only [begin, hsame]

end Begin

/-! ## The number of passages -/

section Remaining

variable {s : Service} {stage : Stage} {next : Service × Stage}

theorem remaining_endPull (s : Service) (reply : Option Reply)
    (result : Except ServiceError ActivationStatus) : (s.endPull reply result).2.remaining = 0 := by
  unfold endPull
  split <;> rfl

theorem remaining_beginPull_le (s : Service) (id : ConstraintId) (retries : Nat)
    (reply : Option Reply) : (s.beginPull id retries reply).2.remaining ≤ retries + 1 := by
  unfold beginPull
  split
  · exact Nat.le_refl _
  · rw [remaining_endPull]
    exact Nat.zero_le _

theorem remaining_proceed_le (s : Service) (reply : Reply) :
    (s.proceed reply).2.remaining ≤ maxRetries + 1 := by
  unfold proceed
  split
  · exact remaining_beginPull_le s _ _ _
  · exact Nat.zero_le _

theorem remaining_resubscribe_le (s : Service) (wanted : List FactKey) (reply : Reply) :
    (s.resubscribe wanted reply).2.remaining ≤ maxRetries + 2 := by
  unfold resubscribe
  dsimp only
  split
  · exact (remaining_proceed_le _ reply).trans (Nat.le_succ _)
  · exact Nat.le_refl _

theorem remaining_enterGate_le (s : Service) (keys : List FactKey) (reply : Reply) :
    (s.enterGate keys reply).2.remaining ≤ maxRetries + 3 := by
  unfold enterGate
  dsimp only
  split
  · exact (remaining_resubscribe_le _ _ reply).trans (Nat.le_succ _)
  · exact Nat.le_refl _

/-- A pull that starts over has one retry less. -/
theorem remaining_fetched_le (s : Service) (plan : PullPlan) (retries : Nat)
    (reply : Option Reply) (news : List FactUpdate) (now : Occasion) :
    (s.fetched plan retries reply news now).2.remaining ≤ retries := by
  unfold fetched
  dsimp only
  split
  · rw [remaining_endPull]
    exact Nat.zero_le _
  · rw [remaining_endPull]
    exact Nat.zero_le _
  · exact remaining_beginPull_le _ _ _ _
  · rw [remaining_endPull]

/-- With every passage, fewer of them are left. -/
theorem Continues.remaining_lt (h : s.Continues stage next) :
    next.2.remaining < stage.remaining := by
  cases h with
  | enterGate _ => exact Nat.lt_succ_of_le (remaining_enterGate_le s _ _)
  | unsubscribed agreed => exact Nat.lt_succ_of_le (remaining_resubscribe_le _ _ _)
  | resubscribed agreed => exact Nat.lt_succ_of_le (remaining_proceed_le _ _)
  | fetched news now => exact Nat.lt_succ_of_le (remaining_fetched_le s _ _ _ news now)

theorem remaining_synchronize_le (s : Service) (keys : List FactKey) (reply : Reply) :
    (s.synchronize keys reply).2.remaining ≤ maxRetries + 4 := by
  unfold synchronize
  split
  · exact (remaining_proceed_le s reply).trans (Nat.le_add_right _ 3)
  · exact Nat.le_refl _

theorem remaining_beginAdd_le (s : Service) (checked : Except Rejection Constraint) :
    (s.beginAdd checked).2.remaining ≤ maxRetries + 4 := by
  unfold beginAdd
  split
  · exact Nat.zero_le _
  · dsimp only
    split
    · exact Nat.zero_le _
    · split
      · exact Nat.zero_le _
      · exact remaining_synchronize_le _ _ _
      · exact remaining_synchronize_le _ _ _

theorem remaining_begin_le (s : Service) (request : Request) :
    (s.begin request).2.remaining ≤ maxRetries + 4 := by
  cases request with
  | add c => exact remaining_beginAdd_le s _
  | addText text => exact remaining_beginAdd_le s _
  | check id => exact (remaining_beginPull_le s id _ none).trans (Nat.le_add_right _ 3)
  | remove id =>
    simp only [begin]
    split
    · exact Nat.zero_le _
    · exact remaining_synchronize_le _ _ _

/-- A call that has not ended can go on, unless it waits at the gate and somebody is behind it. -/
theorem exists_continues (hdone : stage.isDone = false)
    (hgate : ∀ keys reply, stage = .gate keys reply → s.gateTaken = false) :
    ∃ next, s.Continues stage next := by
  cases stage with
  | gate keys reply => exact ⟨_, .enterGate (hgate keys reply rfl)⟩
  | unsubscribing keys wanted reply => exact ⟨_, .unsubscribed true⟩
  | subscribing keys reply => exact ⟨_, .resubscribed true⟩
  | pulling plan retries reply => exact ⟨_, .fetched [] 0⟩
  | done outcome => cases hdone

/-- Behind the gate a call waits for the provider alone. -/
theorem exists_continues_of_isInside (s : Service) (hinside : stage.isInside = true) :
    ∃ next, s.Continues stage next := by
  cases stage with
  | unsubscribing keys wanted reply => exact ⟨_, .unsubscribed true⟩
  | subscribing keys reply => exact ⟨_, .resubscribed true⟩
  | _ => cases hinside

end Remaining

end Service
end Mandate
