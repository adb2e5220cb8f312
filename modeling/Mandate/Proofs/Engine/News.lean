import Mandate.Engine.Pull
import Mandate.Proofs.Engine.Coherence

/-!
# News

A batch of news is supplied to the network fact by fact and propagated once.  Then the productions
that are due are settled.  A production whose root has changed reads a fact that has been touched,
so what is due is known from the inputs alone.

Main results:

- Definition `InputChanges`: supplying news changes the input of a fact at some time.
- Theorem `supplies`: those are the facts that are touched.
- Theorems `visited_perm`, `pairwise_visited`, `exists_visited`: a batch visits every production
  once, by rank, and so in any order.
- Definition `Applies`: what applying a batch of news does.
- Theorem `Coherent.applies`: applying news does that, and keeps the engine coherent.
- Theorem `Coherent.pulls`: a pull is applied in the same way, or nothing happens.
-/

namespace Mandate
namespace Engine

/-! ## Supplying news -/

/-- One of the inputs that the news brings about changes what is known of a fact. -/
inductive InputChanges : Network → List FactUpdate → FactKey → Prop
  | first {net : Network} {news : FactUpdate} {rest : List FactUpdate} {fact : FactKey} :
      (net.setFact news.key news.value).1.input fact ≠ net.input fact →
      InputChanges net (news :: rest) fact
  | later {net : Network} {news : FactUpdate} {rest : List FactUpdate} {fact : FactKey} :
      InputChanges (net.setFact news.key news.value).1 rest fact →
      InputChanges net (news :: rest) fact

theorem not_inputChanges_nil (net : Network) (fact : FactKey) : ¬ InputChanges net [] fact := by
  intro h
  cases h

theorem inputChanges_cons_iff {net : Network} {news : FactUpdate} {rest : List FactUpdate}
    {fact : FactKey} :
    InputChanges net (news :: rest) fact ↔
      (net.setFact news.key news.value).1.input fact ≠ net.input fact ∨
        InputChanges (net.setFact news.key news.value).1 rest fact := by
  constructor
  · intro h
    cases h with
    | first hne => exact Or.inl hne
    | later hrest => exact Or.inr hrest
  · intro h
    rcases h with hne | hrest
    · exact .first hne
    · exact .later hrest

/-- What supplying news does to a network whose references are in order. -/
structure Supplies (net : Network) (held : List NodeId) (news : List FactUpdate)
    (after : Network) (touched : List FactKey) : Prop where
  owned : after.Owned held
  graph : net.SameGraph after
  value : ∀ id, after.value id = net.value id
  consistent : net.Consistent → after.Consistent
  mem_touched_iff : ∀ fact, fact ∈ touched ↔ InputChanges net news fact
  input : ∀ fact, fact ∉ touched → after.input fact = net.input fact

/-- A new input changes what is known of its own fact only. -/
theorem input_setFact_ne_iff {net : Network} (h : net.Sound) {key fact : FactKey}
    {input : Option FactValue} :
    (net.setFact key input).1.input fact ≠ net.input fact ↔
      fact = key ∧ (net.setFact key input).2 = true := by
  rw [h.input_setFact, h.setFact_changed_iff]
  by_cases hfact : fact = key ∧ net.isSubscribed key = true
  · rw [if_pos hfact, hfact.1]
    simp [hfact.2, eq_comm]
  · rw [if_neg hfact]
    simp only [ne_eq, not_true, false_iff, not_and]
    exact fun heq hsub => (hfact ⟨heq, hsub⟩).elim

theorem supplies {net : Network} {held : List NodeId} (h : net.Owned held)
    (news : List FactUpdate) :
    Supplies net held news (supply net news).1 (supply net news).2 := by
  induction news generalizing net with
  | nil =>
    refine ⟨h, Network.SameGraph.refl net, fun _ => rfl, fun hcons => hcons, ?_, fun _ _ => rfl⟩
    intro fact
    exact ⟨fun hmem => absurd hmem List.not_mem_nil, fun hchange =>
      (not_inputChanges_nil net fact hchange).elim⟩
  | cons news rest ih =>
    have hfirst : (net.setFact news.key news.value).1.Owned held := h.setFact
    have hrest := ih hfirst
    have hne : ∀ fact, (net.setFact news.key news.value).1.input fact ≠ net.input fact ↔
        fact = news.key ∧ (net.setFact news.key news.value).2 = true :=
      fun fact => input_setFact_ne_iff h.toSound
    have hmem : ∀ fact, fact ∈ (supply net (news :: rest)).2 ↔
        (fact = news.key ∧ (net.setFact news.key news.value).2 = true) ∨
          fact ∈ (supply (net.setFact news.key news.value).1 rest).2 := by
      intro fact
      simp only [supply]
      by_cases hchanged : (net.setFact news.key news.value).2 = true
      · simp [hchanged]
      · simp [hchanged]
    constructor
    · exact hrest.owned
    · exact h.sameGraph_setFact.trans hrest.graph
    · intro id
      exact (hrest.value id).trans (h.value_setFact id)
    · exact fun hcons => hrest.consistent (h.consistent_setFact hcons)
    · intro fact
      rw [hmem, inputChanges_cons_iff, hne, hrest.mem_touched_iff]
    · intro fact hfact
      rw [hmem, not_or, ← hne, not_not] at hfact
      exact (hrest.input fact hfact.2).trans hfact.1

end Engine

/-! ## Settling productions -/

/-- Settling gives a production the state that its root calls for; apart from that only the moment
of the last evaluation and the history change. -/
theorem Production.settle_eq (p : Production) (value : Value) (now : Moment) (next : Nat) :
    ∃ history, (p.settle value now next).1 =
      { p with state := .ofValue value, evaluated := some now, history } := by
  unfold settle
  dsimp only
  split
  · next hsame => exact ⟨p.history, by rw [hsame]⟩
  · exact ⟨_, rfl⟩

theorem ActivationState.ofValue_ne_unknown (value : Value) : ofValue value ≠ .unknown := by
  unfold ofValue
  split <;> simp

namespace Engine

/-- A production that is due is settled, and any other one stays as it is. -/
def Settles (due : Prop) (value : NodeId → Value) (now : Moment) (p settled : Production) : Prop :=
  (due ∧ ∃ history, settled =
    { p with state := .ofValue (value p.root), evaluated := some now, history }) ∨
  (¬ due ∧ settled = p)

namespace Settles

variable {due : Prop} {value : NodeId → Value} {now : Moment} {p settled : Production}

theorem congr {due' : Prop} (h : Settles due value now p settled) (hdue : due ↔ due') :
    Settles due' value now p settled := by
  unfold Settles at h ⊢
  rwa [← hdue]

theorem root_eq (h : Settles due value now p settled) : settled.root = p.root := by
  rcases h with ⟨-, history, rfl⟩ | ⟨-, rfl⟩ <;> rfl

theorem constraint_eq (h : Settles due value now p settled) :
    settled.constraint = p.constraint := by
  rcases h with ⟨-, history, rfl⟩ | ⟨-, rfl⟩ <;> rfl

theorem generation_eq (h : Settles due value now p settled) :
    settled.generation = p.generation := by
  rcases h with ⟨-, history, rfl⟩ | ⟨-, rfl⟩ <;> rfl

/-- A production is waiting for its first evaluation as long as it is not due. -/
theorem unknown_iff (h : Settles due value now p settled) :
    settled.state = .unknown ↔ p.state = .unknown ∧ ¬ due := by
  rcases h with ⟨hdue, history, rfl⟩ | ⟨hdue, rfl⟩
  · simp [hdue, ActivationState.ofValue_ne_unknown]
  · simp [hdue]

theorem faithful {before after : Network} {id : ConstraintId}
    (h : Settles due value now p settled) (hp : p.Faithful before id)
    (hgraph : before.SameGraph after) : settled.Faithful after id := by
  rcases hp.circuit with ⟨circuit, hlowers, hunfolds⟩
  have hafter := hunfolds.sameGraph hgraph
  rcases h with ⟨-, history, rfl⟩ | ⟨-, rfl⟩
  · exact ⟨hp.id_eq, hp.derived, hp.facts, circuit, hlowers, hafter⟩
  · exact ⟨hp.id_eq, hp.derived, hp.facts, circuit, hlowers, hafter⟩

/-- No state is out of date if all productions whose roots have changed are due. -/
theorem current {before after : Network} (h : Settles due after.value now p settled)
    (hp : p.Current before) (hchanged : after.value p.root ≠ before.value p.root → due) :
    settled.Current after := by
  rcases h with ⟨-, history, rfl⟩ | ⟨hdue, rfl⟩
  · exact Or.inr rfl
  · have hsame : after.value settled.root = before.value settled.root := by
      by_contra hne
      exact hdue (hchanged hne)
    unfold Production.Current at hp ⊢
    rw [hsame]
    exact hp

end Settles

theorem settleAll_forall₂ (due : Production → Bool) (value : NodeId → Value) (now : Moment)
    (last : Nat) (l : List (ConstraintId × Production)) :
    List.Forall₂ (fun a b => b.1 = a.1 ∧ Settles (due a.2 = true) value now a.2 b.2) l
      (settleAll due value now last l).1 := by
  induction l generalizing last with
  | nil => exact .nil
  | cons entry rest ih =>
    rcases entry with ⟨id, p⟩
    unfold settleAll
    by_cases hdue : due p = true
    · rw [if_pos hdue]
      exact .cons ⟨rfl, Or.inl ⟨hdue, p.settle_eq _ _ _⟩⟩ (ih _)
    · rw [if_neg hdue]
      exact .cons ⟨rfl, Or.inr ⟨hdue, rfl⟩⟩ (ih last)

/-! ## Applying news -/

/-- A batch visits every production once. -/
theorem visited_perm (e : Engine) (now : Occasion) : (e.visited now).Perm e.productions.toList :=
  List.mergeSort_perm _ _

/-- The productions are visited by rank. -/
theorem pairwise_visited (e : Engine) (now : Occasion) :
    (e.visited now).Pairwise fun a b => now.rank a.1 ≤ now.rank b.1 := by
  have htrans : ∀ a b c : ConstraintId × Production, decide (now.rank a.1 ≤ now.rank b.1) = true →
      decide (now.rank b.1 ≤ now.rank c.1) = true →
        decide (now.rank a.1 ≤ now.rank c.1) = true := by
    simpa using fun _ _ _ _ _ _ => Nat.le_trans
  have htotal : ∀ a b : ConstraintId × Production,
      (decide (now.rank a.1 ≤ now.rank b.1) || decide (now.rank b.1 ≤ now.rank a.1)) = true := by
    simpa using fun _ _ _ _ => Nat.le_total _ _
  simpa [visited] using List.pairwise_mergeSort htrans htotal e.productions.toList

/-- Whatever the order of the productions, it is the one of some occasion. -/
theorem exists_visited {e : Engine} {l : List (ConstraintId × Production)}
    (hl : l.Perm e.productions.toList) (moment : Moment) :
    ∃ now : Occasion, now.moment = moment ∧ e.visited now = l := by
  let rank (id : ConstraintId) : Nat := (l.map Prod.fst).idxOf id
  refine ⟨⟨moment, rank⟩, rfl, ?_⟩
  have hkeys : (l.map Prod.fst).Nodup := nodup_keys_of_perm hl
  have hrank (i : Nat) (hi : i < l.length) : rank l[i].1 = i := by
    have hplace := hkeys.idxOf_getElem i (by simpa using hi)
    rwa [List.getElem_map] at hplace
  have hordered : l.Pairwise fun a b => rank a.1 ≤ rank b.1 := by
    rw [List.pairwise_iff_getElem]
    intro i j hi hj hij
    rw [hrank i hi, hrank j hj]
    exact hij.le
  refine ((e.visited_perm _).trans hl.symm).eq_of_pairwise ?_ (e.pairwise_visited _) hordered
  intro a b ha hb hab hba
  have ha' : a ∈ l := hl.mem_iff.2 ((e.visited_perm _).mem_iff.1 ha)
  rcases List.getElem_of_mem ha' with ⟨i, hi, rfl⟩
  rcases List.getElem_of_mem hb with ⟨j, hj, rfl⟩
  have hij : i = j := by
    rw [← hrank i hi, ← hrank j hj]
    exact Nat.le_antisymm hab hba
  simp only [hij]

/-- The news are about the production: it is asked for, or a fact that it reads changes. -/
def Concerns (e : Engine) (news : List FactUpdate) (asked : Option ConstraintId)
    (p : Production) : Prop :=
  asked = some p.id ∨ ∃ fact ∈ p.constraint.referencedFacts, InputChanges e.network news fact

/-- Productions are settled one by one, whatever the engine. -/
theorem settles_apply (e : Engine) (news : List FactUpdate) (asked : Option ConstraintId)
    (now : Occasion) (id : ConstraintId) :
    Option.Rel
      (fun p settled => Settles (isDue asked (supply e.network news).1.propagate.2.changed
          (supply e.network news).2 p = true)
        (e.apply news asked now).1.network.value now.moment p settled)
      e.productions[id]? (e.apply news asked now).1.productions[id]? :=
  rel_getElem?_ofList (e.visited_perm now)
    (settleAll_forall₂ _ _ now.moment e.sequence (e.visited now)) id

/-- The roots after a batch of news. -/
theorem roots_apply (e : Engine) (news : List FactUpdate) (asked : Option ConstraintId)
    (now : Occasion) : (e.apply news asked now).1.roots.Perm e.roots := by
  let due := isDue asked (supply e.network news).1.propagate.2.changed (supply e.network news).2
  let value := (e.apply news asked now).1.network.value
  have hforall := settleAll_forall₂ due value now.moment e.sequence (e.visited now)
  have hperm := toList_ofList_perm (distinct_of_forall₂
    (R := fun p q => Settles (due p = true) value now.moment p q) (e.visited_perm now) hforall)
  have hroots := map_eq_of_forall₂ (f := fun entry => entry.2.root) (g := fun entry => entry.2.root)
    (hforall.imp fun _ _ hab => hab.2.root_eq)
  have hvisited := (e.visited_perm now).map fun entry => entry.2.root
  exact ((hperm.map fun entry => entry.2.root).trans (List.Perm.of_eq hroots)).trans hvisited

/-- The network after a batch of news. -/
theorem propagates_supply {net : Network} {held : List NodeId} (howned : net.Owned held)
    (hsettled : net.Settled) (news : List FactUpdate) :
    (supply net news).1.Propagates held (supply net news).1.propagate.1
      (supply net news).1.propagate.2 := by
  have hsupplies := supplies howned news
  exact hsupplies.owned.propagate (hsupplies.consistent hsettled.consistent)

end Engine

namespace Production.Faithful

open Engine

variable {e : Engine} {held : List NodeId} {id : ConstraintId} {p : Production}
  {news : List FactUpdate}

/-- A production whose root has changed reads a fact that has been touched. -/
theorem touched_of_changed (h : p.Faithful e.network id) (howned : e.network.Owned held)
    (hsettled : e.network.Settled)
    (hchanged : (supply e.network news).1.propagate.1.value p.root ≠ e.network.value p.root) :
    ∃ fact ∈ p.constraint.referencedFacts, fact ∈ (supply e.network news).2 := by
  have hsupplies := supplies howned news
  have hpropagates := propagates_supply howned hsettled news
  have hgraph := hsupplies.graph.trans hpropagates.recomputes.sameGraph
  rcases h.circuit with ⟨circuit, hlowers, hunfolds⟩
  by_contra hnone
  refine hchanged ?_
  rw [hsettled.value_of_unfolds howned.toSound hunfolds,
    hpropagates.settled.value_of_unfolds hpropagates.owned.toSound (hunfolds.sameGraph hgraph)]
  refine Circuit.value_congr fun fact hfact => ?_
  rw [hpropagates.recomputes.input]
  refine hsupplies.input fact fun htouched => hnone ⟨fact, ?_, htouched⟩
  exact (hlowers.mem_facts_iff fact).1 hfact

/-- What is due is known from the news. -/
theorem isDue_iff (h : p.Faithful e.network id) (howned : e.network.Owned held)
    (hsettled : e.network.Settled) {asked : Option ConstraintId} :
    isDue asked (supply e.network news).1.propagate.2.changed (supply e.network news).2 p = true ↔
      e.Concerns news asked p := by
  have hsupplies := supplies howned news
  have hchanged : p.root ∈ (supply e.network news).1.propagate.2.changed →
      ∃ fact ∈ p.constraint.referencedFacts, fact ∈ (supply e.network news).2 := by
    intro hmem
    refine h.touched_of_changed howned hsettled ?_
    rw [← hsupplies.value]
    exact ((propagates_supply howned hsettled news).changed_iff p.root).1 hmem
  unfold isDue Concerns
  simp only [Bool.or_eq_true, decide_eq_true_eq, List.contains_iff_mem, List.any_eq_true,
    h.facts, ← hsupplies.mem_touched_iff]
  constructor
  · intro hdue
    rcases hdue with (hasked | hroot) | hfact
    · exact Or.inl hasked
    · exact Or.inr (hchanged hroot)
    · exact Or.inr hfact
  · intro hconcerns
    rcases hconcerns with hasked | hfact
    · exact Or.inl (Or.inl hasked)
    · exact Or.inr hfact

end Production.Faithful

namespace Engine

/-- What applying a batch of news does to a coherent engine. -/
structure Applies (e : Engine) (news : List FactUpdate) (asked : Option ConstraintId)
    (now : Occasion) (after : Engine) : Prop where
  coherent : after.Coherent []
  graph : e.network.SameGraph after.network
  productions : ∀ id : ConstraintId, Option.Rel
    (fun p settled => Settles (e.Concerns news asked p) after.network.value now.moment p settled)
    e.productions[id]? after.productions[id]?

namespace Coherent

variable {e : Engine} {news : List FactUpdate} {asked : Option ConstraintId} {now : Occasion}

/-- The network after a batch of news. -/
theorem propagates (h : e.Coherent []) (news : List FactUpdate) :
    (supply e.network news).1.Propagates e.roots (supply e.network news).1.propagate.1
      (supply e.network news).1.propagate.2 :=
  propagates_supply h.owned h.settled news

/-- A production whose root has changed reads a fact that has been touched. -/
theorem touched_of_changed (h : e.Coherent []) {id : ConstraintId} {p : Production}
    (hp : e.productions[id]? = some p)
    (hchanged : (supply e.network news).1.propagate.1.value p.root ≠ e.network.value p.root) :
    ∃ fact ∈ p.constraint.referencedFacts, fact ∈ (supply e.network news).2 :=
  (h.faithful hp).touched_of_changed h.owned h.settled hchanged

/-- What is due is known from the news. -/
theorem isDue_iff (h : e.Coherent []) {id : ConstraintId} {p : Production}
    (hp : e.productions[id]? = some p) :
    isDue asked (supply e.network news).1.propagate.2.changed (supply e.network news).2 p = true ↔
      e.Concerns news asked p :=
  (h.faithful hp).isDue_iff h.owned h.settled

/-- The productions after a batch of news. -/
theorem productions_apply (h : e.Coherent []) (news : List FactUpdate)
    (asked : Option ConstraintId) (now : Occasion) (id : ConstraintId) :
    Option.Rel
      (fun p settled => Settles (e.Concerns news asked p)
        (e.apply news asked now).1.network.value now.moment p settled)
      e.productions[id]? (e.apply news asked now).1.productions[id]? := by
  refine rel_imp (settles_apply e news asked now id) fun p q hp hsettles => ?_
  exact hsettles.congr (h.isDue_iff hp)

/-- Applying news settles the productions that they concern. -/
theorem applies (h : e.Coherent []) (news : List FactUpdate) (asked : Option ConstraintId)
    (now : Occasion) : e.Applies news asked now (e.apply news asked now).1 := by
  have hsupplies := supplies h.owned news
  have hpropagates := h.propagates news
  have hgraph : e.network.SameGraph (e.apply news asked now).1.network :=
    hsupplies.graph.trans hpropagates.recomputes.sameGraph
  have hproductions := h.productions_apply news asked now
  refine ⟨⟨?_, ?_, hpropagates.settled, ?_, ?_, ?_, h.registry⟩, hgraph, hproductions⟩
  · exact hpropagates.owned.perm (roots_apply e news asked now).symm
  · exact hgraph.wrapsAt.trans h.unbounded
  · intro id q hq
    rcases exists_left_of_rel (hproductions id) hq with ⟨p, hp, hsettles⟩
    exact hsettles.faithful (h.faithful hp) hgraph
  · intro id q hq
    rcases exists_left_of_rel (hproductions id) hq with ⟨p, hp, hsettles⟩
    refine hsettles.current (h.current hp) fun hchanged => Or.inr ?_
    rcases h.touched_of_changed hp hchanged with ⟨fact, hreads, htouched⟩
    exact ⟨fact, hreads, (hsupplies.mem_touched_iff fact).1 htouched⟩
  · intro id
    rw [map_eq_of_rel (hproductions id) fun p q hsettles => hsettles.constraint_eq]
    exact h.registered id

/-! ## Applying what has been fetched -/

/-- A pull is applied as a batch of the news that are fresh, or nothing happens. -/
theorem pulls (h : e.Coherent []) (plan : PullPlan) (news : List FactUpdate) (now : Occasion) :
    (∃ p, e.productions[plan.id]? = some p ∧ p.generation = plan.generation ∧
        (e.applyPull plan news now).1 =
          (e.apply (news.filter (isFresh e.network plan)) (some plan.id) now).1 ∧
        ∃ status batch, (e.applyPull plan news now).2 = .ok (.applied status batch)) ∨
      ((∀ p, e.productions[plan.id]? = some p → p.generation ≠ plan.generation) ∧
        (e.applyPull plan news now).1 = e ∧
        ∀ status batch, (e.applyPull plan news now).2 ≠ .ok (.applied status batch)) := by
  unfold applyPull
  cases hp : e.productions[plan.id]? with
  | none =>
    right
    simp
  | some p =>
    by_cases hgeneration : p.generation = plan.generation
    · left
      refine ⟨p, rfl, hgeneration, ?_⟩
      have hrel := (h.applies (news.filter (isFresh e.network plan)) (some plan.id) now).productions
        plan.id
      rcases exists_right_of_rel hrel hp with ⟨q, hq, -⟩
      simp only [if_pos hgeneration, hq]
      exact ⟨trivial, _, _, rfl⟩
    · right
      simp [hgeneration]

end Coherent
end Engine
end Mandate
