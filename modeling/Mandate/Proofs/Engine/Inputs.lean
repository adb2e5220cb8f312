import Mandate.Proofs.Engine.News
import Mandate.Proofs.Network.Stamps

/-!
# Inputs and their times

A batch of news leaves every followed fact with the last value that the batch gives for it, noted at
a later time than all inputs before, and leaves the facts that it does not mention alone.

Main results:

- Definition `latest?`: the last value that some news give for a fact.
- Definition `Network.Receives`: the input of a fact, and its time, after some news.
- Theorem `receives_supply`: supplying news does that to every followed fact.
- Theorem `Network.Receives.of_keepsInputs`: other changes do it without any news.
-/

namespace Mandate

/-- The last value that the news give for a fact, if they mention it. -/
def latest? : List FactUpdate → FactKey → Option (Option FactValue)
  | [], _ => none
  | news :: rest, fact => (latest? rest fact).or (if news.key = fact then some news.value else none)

theorem latest?_eq_none_iff {news : List FactUpdate} {fact : FactKey} :
    latest? news fact = none ↔ ∀ n ∈ news, n.key ≠ fact := by
  induction news with
  | nil => simp [latest?]
  | cons n rest ih => simp [latest?, ih, and_comm]

theorem exists_of_latest? {news : List FactUpdate} {fact : FactKey} {value : Option FactValue}
    (h : latest? news fact = some value) : ∃ n ∈ news, n.key = fact ∧ n.value = value := by
  induction news with
  | nil => simp [latest?] at h
  | cons n rest ih =>
    cases hrest : latest? rest fact with
    | some later =>
      rw [latest?, hrest, Option.some_or, Option.some.injEq] at h
      rcases ih (hrest.trans (congrArg some h)) with ⟨m, hm, hkey, hvalue⟩
      exact ⟨m, List.mem_cons_of_mem _ hm, hkey, hvalue⟩
    | none =>
      rw [latest?, hrest, Option.none_or] at h
      by_cases hkey : n.key = fact
      · rw [if_pos hkey, Option.some.injEq] at h
        exact ⟨n, List.mem_cons_self, hkey, h⟩
      · rw [if_neg hkey] at h
        cases h

/-- A choice that keeps all news of a fact keeps the last value for it. -/
theorem latest?_filter {news : List FactUpdate} {fact : FactKey} {keep : FactUpdate → Bool}
    (h : ∀ n ∈ news, n.key = fact → keep n = true) :
    latest? (news.filter keep) fact = latest? news fact := by
  induction news with
  | nil => rfl
  | cons n rest ih =>
    have hrest := ih fun m hm => h m (List.mem_cons_of_mem _ hm)
    by_cases hkeep : keep n = true
    · rw [List.filter_cons_of_pos hkeep, latest?, latest?, hrest]
    · have hkey : n.key ≠ fact := fun heq => hkeep (h n List.mem_cons_self heq)
      rw [List.filter_cons_of_neg hkeep, latest?, hrest, if_neg hkey, Option.or_none]

namespace Network

/-- What becomes of a followed fact when some news are supplied: it has the last value that they
give for it, from a later time than before, and if they do not mention it, nothing changes. -/
structure Receives (before : Network) (news : List FactUpdate) (fact : FactKey)
    (after : Network) : Prop where
  input : after.input fact = (latest? news fact).getD (before.input fact)
  kept : latest? news fact = none → after.inputEpoch? fact = before.inputEpoch? fact
  later : latest? news fact ≠ none → ∃ time, after.inputEpoch? fact = some time ∧
    before.epoch < time

/-- Without news the input of a fact that stays followed is kept. -/
theorem Receives.of_keepsInputs {before after : Network} (h : before.KeepsInputs after)
    {fact : FactKey} (hbefore : before.isSubscribed fact = true)
    (hafter : after.isSubscribed fact = true) : before.Receives [] fact after where
  input := h.input fact hbefore hafter
  kept _ := h.inputEpoch? fact hbefore hafter
  later hmentioned := (hmentioned rfl).elim

/-- Computing nodes again changes no input. -/
theorem Receives.recomputes {before middle after : Network} {news : List FactUpdate}
    {fact : FactKey} (h : before.Receives news fact middle) (hafter : middle.Recomputes after) :
    before.Receives news fact after where
  input := by rw [hafter.input, h.input]
  kept := by rw [hafter.inputEpoch?]; exact h.kept
  later := by rw [hafter.inputEpoch?]; exact h.later

end Network

namespace Engine

theorem epoch_le_setFact {net : Network} (h : net.Sound) (n : FactUpdate) :
    net.epoch ≤ (net.setFact n.key n.value).1.epoch := by
  rw [h.epoch_setFact]
  split <;> omega

/-- The count never goes back. -/
theorem epoch_le_supply {net : Network} (h : net.Sound) (news : List FactUpdate) :
    net.epoch ≤ (supply net news).1.epoch := by
  induction news generalizing net with
  | nil => exact Nat.le_refl _
  | cons n rest ih =>
    have hrest : (net.setFact n.key n.value).1.Sound := h.setFact
    exact Nat.le_trans (epoch_le_setFact h n) (ih hrest)

theorem stamped_supply {net : Network} (h : net.Stamped) (hsound : net.Sound)
    (news : List FactUpdate) : (supply net news).1.Stamped := by
  induction news generalizing net with
  | nil => exact h
  | cons n rest ih =>
    have hfirst : (net.setFact n.key n.value).1.Stamped := h.setFact hsound
    exact ih hfirst hsound.setFact

/-- Every followed fact receives the news that are supplied. -/
theorem receives_supply {net : Network} (h : net.Sound) {fact : FactKey}
    (hsub : net.isSubscribed fact = true) (news : List FactUpdate) :
    net.Receives news fact (supply net news).1 := by
  induction news generalizing net with
  | nil => exact ⟨rfl, fun _ => rfl, fun hmentioned => (hmentioned rfl).elim⟩
  | cons n rest ih =>
    have hgraph : net.SameGraph (net.setFact n.key n.value).1 := h.sameGraph_setFact
    have hsound : (net.setFact n.key n.value).1.Sound := h.setFact
    have hrest := ih hsound ((hgraph.isSubscribed fact).trans hsub)
    have hinput : (net.setFact n.key n.value).1.input fact = _ := h.input_setFact fact
    have htime : (net.setFact n.key n.value).1.inputEpoch? fact = _ := h.inputEpoch?_setFact fact
    have hle := epoch_le_setFact h n
    cases hlater : latest? rest fact with
    | some value =>
      have hall : latest? (n :: rest) fact = some value := by rw [latest?, hlater, Option.some_or]
      have hmentioned : latest? rest fact ≠ none := by simp [hlater]
      rcases hrest.later hmentioned with ⟨time, hnoted, hlt⟩
      constructor
      · rw [hall]
        exact hrest.input.trans (by rw [hlater]; rfl)
      · simp [hall]
      · exact fun _ => ⟨time, hnoted, by omega⟩
    | none =>
      have hlast : latest? (n :: rest) fact = if n.key = fact then some n.value else none := by
        rw [latest?, hlater, Option.none_or]
      have hkept := hrest.kept hlater
      have hsame := hrest.input
      rw [hlater, Option.getD_none] at hsame
      by_cases hkey : n.key = fact
      · -- the first one of the news is the last one about the fact
        subst hkey
        rw [if_pos ⟨rfl, hsub⟩] at hinput htime
        rw [if_pos rfl] at hlast
        constructor
        · rw [hlast]
          exact hsame.trans hinput
        · simp [hlast]
        · exact fun _ => ⟨net.epoch + 1, hkept.trans htime, by omega⟩
      · have hnot : ¬ (fact = n.key ∧ net.isSubscribed n.key = true) :=
          fun hboth => hkey hboth.1.symm
        rw [if_neg hnot] at hinput htime
        rw [if_neg hkey] at hlast
        constructor
        · rw [hlast]
          exact hsame.trans hinput
        · exact fun _ => hkept.trans htime
        · simp [hlast]

end Engine
end Mandate
