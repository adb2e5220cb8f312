import Mandate.Proofs.Engine.Inputs
import Mandate.Proofs.Engine.Outcomes
import Mandate.Proofs.Engine.Run

/-!
# Isolation

Constraints share nodes of the network, whose references and parents change when constraints come and
go, and whose places are freed and taken again.  Nothing of that shows in the other constraints: they
keep their roots with their values, their states and their histories, and facts that stay followed
keep their leaves with what has been supplied for them.

Main results:

- Definition `Undisturbed`: what a registration or removal leaves as it is.
- Theorem `undisturbed_of_keeps`: building on a network and then taking nodes out does so.
- Theorems `Adds.undisturbed`, `Leaves.undisturbed`: so do registrations and removals.
- Theorem `undisturbed_of_run`: this holds in every step of every run.
-/

namespace Mandate

/-- A fact that is followed keeps its leaf at its place as long as no node is changed. -/
theorem Network.Keeps.leaves_eq {before after : Network} (h : before.Keeps after)
    (hbefore : before.Sound) (hafter : after.Sound) {fact : FactKey}
    (hsub : before.isSubscribed fact = true) : after.leaves[fact]? = before.leaves[fact]? := by
  rcases (hbefore.isSubscribed_iff fact).1 hsub with ⟨id, leaf, hnode, hop⟩
  rcases h.node? hnode with ⟨leaf', hnode', hbare⟩
  have hop' : leaf'.key.op = .fact fact := (Node.eq_of_bare hbare).key ▸ hop
  rw [(hbefore.leaves_iff fact id).2 ⟨leaf, hnode, hop⟩,
    (hafter.leaves_iff fact id).2 ⟨leaf', hnode', hop'⟩]

namespace Engine

/-- Productions other than those that have gone stay as they are, and so do the values of their roots.
Facts that are followed before and after keep their leaves, their inputs and the times of those. -/
structure Undisturbed (e : Engine) (gone : ConstraintId → Prop) (after : Engine) : Prop where
  production : ∀ {id : ConstraintId} {p : Production}, e.productions[id]? = some p → ¬ gone id →
    after.productions[id]? = some p
  value : ∀ {id : ConstraintId} {p : Production}, e.productions[id]? = some p → ¬ gone id →
    after.network.value p.root = e.network.value p.root
  leaf : ∀ {fact : FactKey}, e.network.isSubscribed fact = true →
    after.network.isSubscribed fact = true →
      after.network.leaves[fact]? = e.network.leaves[fact]?
  inputs : e.network.KeepsInputs after.network

/-- Building on a network and then taking nodes out disturbs no production that stays. -/
theorem undisturbed_of_keeps {e after : Engine} {spare spare' : List NodeId} {built : Network}
    {gone : ConstraintId → Prop} (h : e.Coherent spare) (hafter : after.Coherent spare')
    (hmiddle : built.Sound) (hbuilt : e.network.Keeps built) (hleft : after.network.Keeps built)
    (hstays : ∀ {id : ConstraintId} {p : Production}, e.productions[id]? = some p → ¬ gone id →
      after.productions[id]? = some p) :
    e.Undisturbed gone after where
  production := hstays
  value := by
    intro id p hp hnot
    have hbefore : e.network.Live p.root :=
      h.owned.held_live (List.mem_append_right _ (mem_roots_iff.2 ⟨id, p, hp, rfl⟩))
    have hlater : after.network.Live p.root :=
      hafter.owned.held_live (List.mem_append_right _ (mem_roots_iff.2 ⟨id, p, hstays hp hnot, rfl⟩))
    exact (hleft.value hlater).symm.trans (hbuilt.value hbefore)
  leaf := by
    intro fact hbefore hlater
    rw [← hbuilt.leaves_eq h.owned.toSound hmiddle hbefore,
      hleft.leaves_eq hafter.owned.toSound hmiddle hlater]
  inputs := .of_keeps hbuilt hleft h.owned.toSound hmiddle hafter.owned.toSound

/-- A removal disturbs no other production. -/
theorem Leaves.undisturbed {e after : Engine} {spare : List NodeId} {gone : ConstraintId}
    {dropped : List FactKey} (h : e.Coherent spare) (hleaves : e.Leaves spare (some gone) after dropped) :
    e.Undisturbed (· = gone) after := by
  refine undisturbed_of_keeps h hleaves.coherent h.owned.toSound (Network.Keeps.refl _)
    hleaves.keeps ?_
  intro id p hp hnot
  exact (hleaves.productions id p).2 ⟨fun heq => hnot (Option.some.inj heq), hp⟩

/-- A registration disturbs no production but the one that it replaces. -/
theorem Adds.undisturbed {e after : Engine} {c : Constraint} {registered : Registered}
    (h : e.Coherent []) (ha : e.Adds c after (.ok registered)) :
    e.Undisturbed (fun id => registered.kind = .replaced id) after := by
  have hafter := ha.coherent h
  cases ha with
  | unchanged hp =>
    exact undisturbed_of_keeps h hafter h.owned.toSound (Network.Keeps.refl _)
      (Network.Keeps.refl _) fun hp _ => hp
  | @installed old circuit built room dropped hnew hold hlowers hbuilds hleaves =>
    refine undisturbed_of_keeps h hafter hbuilds.owned.toSound hbuilds.keeps hleaves.keeps ?_
    intro id p hp hnot
    have hid : id ≠ ConstraintId.derive c := by
      rintro rfl
      rw [hp] at hnew
      cases hnew
    rw [productions_enter, if_neg hid]
    refine (hleaves.productions id p).2 ⟨fun heq => hnot ?_, hp⟩
    rw [← heq]
    rfl

/-- In every step of every run, a registration or removal that succeeds leaves the productions that
are not replaced or removed as they are, with their roots, states, times of evaluation and histories,
and so are the values of their roots.  A fact that is followed before and after keeps its leaf, its
input and the time of it. -/
theorem undisturbed_of_run (config : RegistryConfig) (ops : List Operation)
    (hops : Unambiguous ops) :
    ∀ step ∈ (initial config).trace ops,
      (∀ c registered, step.2 = .add c → (step.1.add c).2 = .ok registered →
        step.1.Undisturbed (fun id => registered.kind = .replaced id) (step.1.add c).1) ∧
      ∀ id removed, step.2 = .remove id → (step.1.remove id).2 = .ok removed →
        step.1.Undisturbed (· = id) (step.1.remove id).1 := by
  intro step hstep
  rcases reached_of_mem_trace hops hstep with ⟨hcoherent, hop⟩
  refine ⟨?_, ?_⟩
  · intro c registered hadd hreply
    have hadds := hcoherent.adds (hop c hadd)
    rw [hreply] at hadds
    exact hadds.undisturbed hcoherent
  · intro id removed _ hreply
    rcases hcoherent.removes id with ⟨p, other, -, -, hleaves⟩ | ⟨-, hremove⟩
    · exact hleaves.undisturbed hcoherent
    · rw [hremove] at hreply
      cases hreply

/-- The second registration of the run is a step of it. -/
theorem mem_trace_twoRedelegations (e : Engine) :
    ((e.add (redelegation ⟨"p"⟩)).1, Operation.add (redelegation ⟨"q"⟩)) ∈
      e.trace twoRedelegations :=
  List.mem_cons_of_mem _ List.mem_cons_self

/-- The constraint that is registered first is the same when another one has been registered, and the
fact that it reads has the same leaf. -/
theorem undisturbed_twoRedelegations :
    Unambiguous twoRedelegations ∧
      ∃ e after : Engine, ∃ p : Production,
        (e, .add (redelegation ⟨"q"⟩)) ∈ (initial {}).trace twoRedelegations ∧
        after = (e.add (redelegation ⟨"q"⟩)).1 ∧
        e.productions[ConstraintId.derive (redelegation ⟨"p"⟩)]? = some p ∧
        after.productions[ConstraintId.derive (redelegation ⟨"p"⟩)]? = some p ∧
        after.network.value p.root = e.network.value p.root ∧
        e.network.isSubscribed (.redelegated ⟨"p"⟩) = true ∧
        after.network.isSubscribed (.redelegated ⟨"p"⟩) = true ∧
        after.network.leaves[FactKey.redelegated ⟨"p"⟩]? =
          e.network.leaves[FactKey.redelegated ⟨"p"⟩]? := by
  refine ⟨unambiguous_twoRedelegations, ?_⟩
  have hfirst : (initial {}).registry.owner? (redelegation ⟨"p"⟩).permission = none := by
    simp [initial, Registry.owner?]
  have hpermission : (redelegation ⟨"q"⟩).permission ≠ (redelegation ⟨"p"⟩).permission := by decide
  have hsecond : ((initial {}).add (redelegation ⟨"p"⟩)).1.registry.owner?
      (redelegation ⟨"q"⟩).permission = none :=
    (owner?_add_of_free hfirst (redelegation_lowers _) _).trans (if_neg hpermission)
  have hp := (productions_add_of_free hfirst (redelegation_lowers _)
    (ConstraintId.derive (redelegation ⟨"p"⟩))).trans (if_pos rfl)
  have hreads : FactKey.redelegated ⟨"p"⟩ ∈ (redelegation ⟨"p"⟩).referencedFacts :=
    ((redelegation_lowers ⟨"p"⟩).mem_facts_iff _).1 (List.mem_singleton_self _)
  have hstep := mem_trace_twoRedelegations (initial {})
  have hreached := reached_of_mem_trace unambiguous_twoRedelegations hstep
  have hundisturbed := undisturbed_of_run {} twoRedelegations unambiguous_twoRedelegations _ hstep
  generalize ((initial {}).add (redelegation ⟨"p"⟩)).1 = e at *
  have hreply := add_of_free hsecond (redelegation_lowers _)
  have hkeeps := hundisturbed.1 _ _ rfl (congrArg Prod.snd hreply)
  have hother : Registration.added ≠ .replaced (ConstraintId.derive (redelegation ⟨"p"⟩)) := by simp
  have hlater := hkeeps.production hp hother
  have hbefore := (hreached.1.isSubscribed_iff _).2 ⟨_, _, hp, hreads⟩
  have hafter := ((hreached.1.add (hreached.2 _ rfl)).isSubscribed_iff _).2 ⟨_, _, hlater, hreads⟩
  exact ⟨e, _, _, hstep, rfl, hp, hlater, hkeeps.value hp hother, hbefore, hafter,
    hkeeps.leaf hbefore hafter⟩

end Engine
end Mandate
