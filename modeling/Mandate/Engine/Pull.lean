import Mandate.Engine.Basic

/-!
# Pulling facts

To evaluate a production on current facts, its facts are fetched from outside and then applied.
Between the two the engine may change: news about a fact that came in meanwhile wins over the
fetched value, and nothing is applied to another registration than the one that the pull is for.

Main definitions:

* `PullPlan`, `Engine.pullPlan`: what a pull has to fetch.
* `PullOutcome`, `Engine.applyPull`: what becomes of the fetched facts.
-/

namespace Mandate

/-- What a pull has to fetch for a production. -/
structure PullPlan where
  id : ConstraintId
  generation : Nat
  /-- All inputs up to now; a later one is newer than anything that the pull fetches. -/
  epoch : Nat
  keys : List FactKey
  deriving DecidableEq

/-- What became of the fetched facts. -/
inductive PullOutcome
  | applied (status : ActivationStatus) (batch : Batch)
  /-- The constraint has been registered again since; nothing was applied. -/
  | superseded
  deriving DecidableEq

namespace Engine

/-- What has to be fetched to evaluate a constraint. -/
def pullPlan (e : Engine) (id : ConstraintId) : Except ServiceError PullPlan :=
  match e.productions[id]? with
  | some p => .ok ⟨id, p.generation, e.network.epoch, p.facts⟩
  | none => .error (.notFound id)

/-- No input came in after the plan for the fact that the news is about. -/
def isFresh (net : Network) (plan : PullPlan) (news : FactUpdate) : Bool :=
  match net.inputEpoch? news.key with
  | some epoch => epoch ≤ plan.epoch
  | none => true

/-- Applies the facts that were fetched for a plan, and evaluates the production. -/
def applyPull (e : Engine) (plan : PullPlan) (news : List FactUpdate) (now : Occasion) :
    Engine × Except ServiceError PullOutcome :=
  match e.productions[plan.id]? with
  | none => (e, .error (.notFound plan.id))
  | some p =>
    if p.generation = plan.generation then
      let (e, batch) := e.apply (news.filter (isFresh e.network plan)) (some plan.id) now
      match e.productions[plan.id]? with
      | some p => (e, .ok (.applied p.status batch))
      | none => (e, .error (.notFound plan.id))
    else (e, .ok .superseded)

end Engine
end Mandate
