import Mandate.Proofs.Engine.Inputs
import Mandate.Proofs.Engine.Outcomes
import Mandate.Proofs.Engine.Run

/-!
# Rooted engines

What holds after every run, also if two constraints have the same identity.  A constraint that is
registered under the identity of another one takes its entry, and the root of the other one is never
given back; the engine then holds that root in addition to those of its productions.  What the
network follows, and what it knows, is in order all the same.

Main results:

- Definition `Rooted`: the invariant, for the roots that are held in addition.
- Definition `Network.Rebuilds`: what registrations and removals do to the network.
- Theorems `Rooted.rebuilds_add`, `Rooted.rebuilds_remove`: they do so, and report what they change.
- Theorem `rooted_run`: the engine is rooted after every run.
- Theorem `Rooted.receives`: what an operation does to a fact that stays followed.
-/

namespace Mandate

/-- The network changes by registrations and removals: some facts are followed now or no longer, and
all others keep their inputs. -/
structure Network.Rebuilds (before after : Network) (new dropped : List FactKey) : Prop where
  follows : before.Follows after new dropped
  inputs : before.KeepsInputs after
  epoch : after.epoch = before.epoch

theorem Network.Rebuilds.refl (net : Network) : net.Rebuilds net [] [] :=
  ⟨Network.Follows.refl net, Network.KeepsInputs.refl net, rfl⟩

namespace Engine

/-- The engine holds the roots of its productions and the roots `spare`, every production stands for
its constraint, and what is registered owns its permission. -/
structure Rooted (e : Engine) (spare : List NodeId) : Prop where
  owned : e.network.Owned (spare ++ e.roots)
  unbounded : e.network.wrapsAt = 0
  settled : e.network.Settled
  stamped : e.network.Stamped
  faithful : ∀ {id : ConstraintId} {p : Production}, e.productions[id]? = some p →
    p.Faithful e.network id
  registered : ∀ id, e.registry.get? id = e.productions[id]?.map Production.constraint
  owning : e.registry.Owning

theorem rooted_initial (config : RegistryConfig) : (initial config).Rooted [] where
  owned := Network.owned_empty
  unbounded := rfl
  settled := (coherent_initial config).settled
  stamped := Network.stamped_empty
  faithful := by simp [initial]
  registered := by simp [initial, Registry.get?]
  owning := Registry.owning_empty

/-- The production `gone`, if there is one, has been taken out. -/
structure Clears (e : Engine) (spare : List NodeId) (gone : ConstraintId) (after : Engine)
    (dropped : List FactKey) : Prop where
  rooted : after.Rooted spare
  productions : ∀ id : ConstraintId,
    after.productions[id]? = if id = gone then none else e.productions[id]?
  keeps : after.network.Keeps e.network
  epoch : after.network.epoch = e.network.epoch
  dropped_nodup : dropped.Nodup
  mem_dropped_iff : ∀ fact, fact ∈ dropped ↔
    e.network.isSubscribed fact = true ∧ ¬ after.network.isSubscribed fact = true
  subscribed : ∀ fact, after.network.isSubscribed fact = true → e.network.isSubscribed fact = true

/-- A circuit has been built, and the production `old`, if there is one, has been taken out. -/
structure MakesRoom (e : Engine) (spare : List NodeId) (c : Constraint) (circuit : Circuit)
    (old : Option ConstraintId) (room : Engine) (dropped : List FactKey) : Prop where
  rooted : room.Rooted ((e.network.build circuit).root :: spare)
  productions : ∀ id : ConstraintId,
    room.productions[id]? = if some id = old then none else e.productions[id]?
  unfolds : room.network.Unfolds (e.network.build circuit).root circuit
  free : ∀ other d, room.registry.get? other = some d → d.permission = c.permission →
    other = ConstraintId.derive c
  rebuilds : e.network.Rebuilds room.network (e.network.build circuit).newFacts dropped

namespace Rooted

variable {e : Engine} {spare : List NodeId} {id : ConstraintId} {p : Production}

theorem identified (h : e.Rooted spare) (hp : e.productions[id]? = some p) : p.id = id :=
  (h.faithful hp).id_eq

/-- The facts of a production are followed. -/
theorem isSubscribed_of_mem_facts (h : e.Rooted spare) (hp : e.productions[id]? = some p)
    {fact : FactKey} (hfact : fact ∈ p.facts) : e.network.isSubscribed fact = true := by
  have hfaithful := h.faithful hp
  rcases hfaithful.circuit with ⟨circuit, hlowers, hunfolds⟩
  rw [h.owned.isSubscribed_iff]
  refine ⟨p.root, List.mem_append_right _ (mem_roots_iff.2 ⟨id, p, hp, rfl⟩), circuit, hunfolds, ?_⟩
  rwa [hlowers.mem_facts_iff, ← hfaithful.facts]

theorem get?_eq_none_iff (h : e.Rooted spare) :
    e.registry.get? id = none ↔ e.productions[id]? = none := by
  rw [h.registered, Option.map_eq_none_iff]

/-! ## Productions come and go -/

/-- A production is taken out and its root is given back. -/
theorem withdraw (h : e.Rooted spare) (hp : e.productions[id]? = some p) :
    e.Clears spare id (e.withdraw p).1 (e.withdraw p).2.droppedFacts := by
  have hid : p.id = id := h.identified hp
  have hroots : e.roots.Perm (p.root :: (e.productions.erase id).toList.map fun entry =>
      entry.2.root) := (toList_perm_erase hp).map _
  have hreleases := (h.owned.perm ((hroots.append_left spare).trans List.perm_middle)).release
  have hafter : (e.withdraw p).1 =
      { e with
        registry := e.registry.erase id
        network := (e.network.release p.root).network
        productions := e.productions.erase id
        retired := if e.config.retainHistory then e.retired.insert id p.history else e.retired } := by
    unfold Engine.withdraw
    rw [hid]
  rw [hafter]
  constructor
  · constructor
    · exact hreleases.owned
    · exact hreleases.wrapsAt.trans h.unbounded
    · refine ⟨fun due hdue => ?_, hreleases.consistent h.settled.consistent⟩
      exact h.settled.dirty due (hreleases.dirty due hdue)
    · exact h.stamped.of_keeps hreleases.keeps hreleases.epoch
    · intro other q hq
      have hlive : (e.network.release p.root).network.Live q.root :=
        hreleases.owned.held_live (List.mem_append_right _ (List.mem_map_of_mem
          (f := fun entry => entry.2.root) (mem_toList_iff.2 hq : (other, q) ∈ _)))
      dsimp only at hq
      rw [getElem?_erase_eq] at hq
      by_cases hother : other = id
      · simp [hother] at hq
      · rw [if_neg hother] at hq
        exact (h.faithful hq).of_unfolds fun c hc =>
          hreleases.owned.unfolds_of_keeps hreleases.keeps hc hlive
    · intro other
      dsimp only
      rw [Registry.get?_erase, getElem?_erase_eq, h.registered]
      by_cases hother : other = id <;> simp [hother]
    · exact h.owning.erase id
  · exact getElem?_erase_eq _ _
  · exact hreleases.keeps
  · exact hreleases.epoch
  · exact hreleases.dropped_nodup
  · exact hreleases.mem_dropped
  · exact hreleases.subscribed

theorem displace (h : e.Rooted spare) (old : ConstraintId) :
    e.Clears spare old (e.displace old).1 (e.displace old).2 := by
  cases hp : e.productions[old]? with
  | some p =>
    have hdisplace : e.displace old = ((e.withdraw p).1, (e.withdraw p).2.droppedFacts) := by
      simp only [Engine.displace, hp]
    rw [hdisplace]
    exact h.withdraw hp
  | none =>
    have hdisplace : e.displace old = (e, []) := by
      simp only [Engine.displace, hp]
    rw [hdisplace]
    refine ⟨h, ?_, Network.Keeps.refl _, rfl, List.nodup_nil, by simp, fun _ hsub => hsub⟩
    intro id
    by_cases hid : id = old <;> simp [hid, hp]

/-- A production takes a root that the engine holds.  If it takes the entry of another one, the
engine keeps the root of that one. -/
theorem enter {c : Constraint} {root : NodeId} {circuit : Circuit} (h : e.Rooted (root :: spare))
    (hid : id = ConstraintId.derive c) (hlowers : c.Lowers circuit)
    (hunfolds : e.network.Unfolds root circuit)
    (honly : ∀ other d, e.registry.get? other = some d → d.permission = c.permission → other = id) :
    ∃ spare', (e.enter id c root).Rooted spare' := by
  have hroots : (e.enter id c root).roots.Perm
      (root :: (e.productions.erase id).toList.map fun entry => entry.2.root) :=
    (toList_insert_perm_erase e.productions id (e.entered id c root)).map _
  have howned : ∃ spare', e.network.Owned (spare' ++ (e.enter id c root).roots) := by
    cases hp : e.productions[id]? with
    | some q =>
      have hold : e.roots.Perm (q.root :: (e.productions.erase id).toList.map fun entry =>
          entry.2.root) := (toList_perm_erase hp).map _
      refine ⟨q.root :: spare, h.owned.perm ?_⟩
      refine ((hold.append_left (root :: spare)).trans ?_).trans
        (hroots.symm.append_left (q.root :: spare))
      exact List.perm_middle.trans (List.perm_middle.symm.cons q.root)
    | none =>
      have hold : e.roots.Perm ((e.productions.erase id).toList.map fun entry => entry.2.root) := by
        refine (toList_perm_of_getElem?_eq fun a => ?_).map _
        rw [getElem?_erase_eq]
        by_cases ha : a = id <;> simp [ha, hp]
      refine ⟨spare, h.owned.perm ?_⟩
      refine ((hold.append_left (root :: spare)).trans ?_).trans (hroots.symm.append_left spare)
      exact List.perm_middle.symm
  rcases howned with ⟨spare', howned⟩
  refine ⟨spare', howned, h.unbounded, h.settled, h.stamped, ?_, ?_, h.owning.insert honly⟩
  · intro other q hq
    rw [productions_enter] at hq
    by_cases hother : other = id
    · rw [if_pos hother, Option.some.injEq] at hq
      rw [← hq, hother]
      exact ⟨rfl, hid, rfl, circuit, hlowers, hunfolds⟩
    · rw [if_neg hother] at hq
      exact h.faithful hq
  · intro other
    have hregistry : (e.enter id c root).registry = e.registry.insert id c := rfl
    rw [hregistry, Registry.get?_insert, productions_enter, h.registered]
    by_cases hother : other = id
    · rw [if_pos hother, if_pos hother]
      rfl
    · rw [if_neg hother, if_neg hother]

/-! ## Registrations and removals -/

/-- Every circuit of a constraint is built in order. -/
theorem builds (h : e.Rooted spare) {c : Constraint} {circuit : Circuit} (hc : c.Lowers circuit) :
    e.network.Builds (spare ++ e.roots) circuit (e.network.build circuit) :=
  h.owned.build hc.wellFormed (Network.hasRoomToBuild_of_unbounded h.unbounded circuit)

/-- The engine holds the root of a circuit that has been built. -/
theorem build (h : e.Rooted spare) {c : Constraint} {circuit : Circuit} (hc : c.Lowers circuit) :
    ({ e with network := (e.network.build circuit).network } : Engine).Rooted
      ((e.network.build circuit).root :: spare) := by
  have hbuilds := h.builds hc
  refine ⟨hbuilds.owned, hbuilds.wrapsAt.trans h.unbounded,
    ⟨?_, hbuilds.consistent h.settled.consistent⟩,
    h.stamped.build h.owned.toSound hc.wellFormed, ?_, h.registered, h.owning⟩
  · rw [hbuilds.dirty]
    exact h.settled.dirty
  · intro id p hp
    exact (h.faithful hp).of_unfolds fun c hc => hc.mono hbuilds.keeps

/-- Room is made for a constraint that is admitted. -/
theorem makeRoom (h : e.Rooted spare) {c : Constraint} {circuit : Circuit}
    {old : Option ConstraintId} (hc : c.Lowers circuit) (hadmits : e.Admits c old) :
    e.MakesRoom spare c circuit old (e.makeRoom circuit old).1 (e.makeRoom circuit old).2 := by
  have hbuilds := h.builds hc
  have hbuilt := h.build hc
  cases old with
  | none =>
    refine ⟨hbuilt, by simp [Engine.makeRoom], hbuilds.unfolds, ?_, ?_⟩
    · intro other d hget hpermission
      have howner := h.owning other d hget
      rw [hpermission, hadmits.owner] at howner
      cases howner
    · refine ⟨?_, ?_, hbuilds.epoch⟩
      · exact hbuilds.follows hbuilds.owned (Network.Keeps.refl _) List.nodup_nil
          (by simp [Engine.makeRoom]) fun _ hsub => hsub
      · exact .of_keeps hbuilds.keeps (Network.Keeps.refl _) h.owned.toSound
          hbuilds.owned.toSound hbuilds.owned.toSound
  | some old =>
    have hclears : Clears _ _ old (e.makeRoom circuit (some old)).1
        (e.makeRoom circuit (some old)).2 := hbuilt.displace old
    have hlive : (e.makeRoom circuit (some old)).1.network.Live (e.network.build circuit).root :=
      hclears.rooted.owned.held_live List.mem_cons_self
    refine ⟨hclears.rooted, by simpa using hclears.productions, ?_, ?_, ?_⟩
    · exact hclears.rooted.owned.unfolds_of_keeps hclears.keeps hbuilds.unfolds hlive
    · intro other d hget hpermission
      rw [hclears.rooted.registered, hclears.productions] at hget
      by_cases hother : other = old
      · simp [hother] at hget
      · -- whatever has the permission owns it, and it is owned by what has gone
        rw [if_neg hother] at hget
        have howner := h.owning other d ((h.registered other).trans hget)
        rw [hpermission, hadmits.owner, Option.some.injEq] at howner
        exact (hother howner.symm).elim
    · refine ⟨?_, ?_, hclears.epoch.trans hbuilds.epoch⟩
      · exact hbuilds.follows hclears.rooted.owned hclears.keeps hclears.dropped_nodup
          hclears.mem_dropped_iff hclears.subscribed
      · exact .of_keeps hbuilds.keeps hclears.keeps h.owned.toSound hbuilds.owned.toSound
          hclears.rooted.owned.toSound

/-- A registration keeps the engine rooted. -/
theorem add (h : e.Rooted spare) (c : Constraint) : ∃ spare', (e.add c).1.Rooted spare' := by
  have houtcome := e.add_outcome c
  generalize (e.add c).1 = after at houtcome ⊢
  generalize (e.add c).2 = reply at houtcome
  cases houtcome with
  | refused _ => exact ⟨spare, h⟩
  | unchanged _ => exact ⟨spare, h⟩
  | installed hadmits hlowers =>
    have hroom := h.makeRoom hlowers hadmits
    exact hroom.rooted.enter rfl hlowers hroom.unfolds hroom.free

/-- A registration reports the facts whose following begins or ends, and keeps the inputs of all
others. -/
theorem rebuilds_add (h : e.Rooted spare) {c : Constraint} {registered : Registered}
    (hreply : (e.add c).2 = .ok registered) :
    e.network.Rebuilds (e.add c).1.network registered.newFacts registered.droppedFacts := by
  have houtcome := e.add_outcome c
  rw [hreply] at houtcome
  generalize (e.add c).1 = after at houtcome ⊢
  cases houtcome with
  | unchanged _ => exact Network.Rebuilds.refl e.network
  | installed hadmits hlowers => exact (h.makeRoom hlowers hadmits).rebuilds

theorem remove_cases (h : e.Rooted spare) (id : ConstraintId) :
    (∃ removed, (e.remove id).2 = .ok removed ∧
        e.Clears spare id (e.remove id).1 removed.droppedFacts) ∨
      (e.remove id = (e, .error (.notFound id)) ∧ e.productions[id]? = none) := by
  cases hp : e.productions[id]? with
  | none => exact Or.inr ⟨remove_of_none hp, rfl⟩
  | some p =>
    have hremove : e.remove id = ((e.withdraw p).1, .ok (e.withdraw p).2) := by
      simp only [Engine.remove, hp]
    rw [hremove]
    exact Or.inl ⟨_, rfl, h.withdraw hp⟩

/-- A removal keeps the engine rooted. -/
theorem remove (h : e.Rooted spare) (id : ConstraintId) : (e.remove id).1.Rooted spare := by
  rcases h.remove_cases id with ⟨removed, -, hclears⟩ | ⟨hremove, -⟩
  · exact hclears.rooted
  · rw [hremove]
    exact h

/-- A removal reports the facts whose following ends, and keeps the inputs of all others. -/
theorem rebuilds_remove (h : e.Rooted spare) {id : ConstraintId} {removed : Removed}
    (hreply : (e.remove id).2 = .ok removed) :
    e.network.Rebuilds (e.remove id).1.network [] removed.droppedFacts := by
  rcases h.remove_cases id with ⟨other, hother, hclears⟩ | ⟨hremove, -⟩
  · rw [hreply, Except.ok.injEq] at hother
    subst hother
    refine ⟨⟨List.nodup_nil, hclears.dropped_nodup, ?_, hclears.mem_dropped_iff⟩, ?_,
      hclears.epoch⟩
    · intro fact
      simp only [List.not_mem_nil, false_iff, not_and, not_not]
      exact hclears.subscribed fact
    · exact .of_keeps (Network.Keeps.refl _) hclears.keeps h.owned.toSound h.owned.toSound
        hclears.rooted.owned.toSound
  · rw [hremove] at hreply
    cases hreply

/-! ## News -/

theorem propagates (h : e.Rooted spare) (news : List FactUpdate) :
    (supply e.network news).1.Propagates (spare ++ e.roots) (supply e.network news).1.propagate.1
      (supply e.network news).1.propagate.2 :=
  propagates_supply h.owned h.settled news

/-- The productions that the news concern are settled. -/
theorem settles_concerned (h : e.Rooted spare) (news : List FactUpdate) (asked : Option ConstraintId)
    (now : Occasion) (id : ConstraintId) :
    Option.Rel
      (fun p settled => Settles (e.Concerns news asked p)
        (e.apply news asked now).1.network.value now.moment p settled)
      e.productions[id]? (e.apply news asked now).1.productions[id]? := by
  refine rel_imp (settles_apply e news asked now id) fun p q hp hsettles => ?_
  exact hsettles.congr ((h.faithful hp).isDue_iff h.owned h.settled)

/-- A batch of news keeps the engine rooted. -/
theorem apply (h : e.Rooted spare) (news : List FactUpdate) (asked : Option ConstraintId)
    (now : Occasion) : (e.apply news asked now).1.Rooted spare := by
  have hpropagates := h.propagates news
  have hgraph : e.network.SameGraph (e.apply news asked now).1.network :=
    (supplies h.owned news).graph.trans hpropagates.recomputes.sameGraph
  have hsettles := h.settles_concerned news asked now
  constructor
  · exact hpropagates.owned.perm ((roots_apply e news asked now).symm.append_left spare)
  · exact hgraph.wrapsAt.trans h.unbounded
  · exact hpropagates.settled
  · exact hpropagates.recomputes.stamped (stamped_supply h.stamped h.owned.toSound news)
  · intro id q hq
    rcases exists_left_of_rel (hsettles id) hq with ⟨p, hp, hsettled⟩
    exact hsettled.faithful (h.faithful hp) hgraph
  · intro id
    rw [map_eq_of_rel (hsettles id) fun p q hsettled => hsettled.constraint_eq]
    exact h.registered id
  · exact h.owning

theorem isSubscribed_apply (h : e.Rooted spare) (news : List FactUpdate)
    (asked : Option ConstraintId) (now : Occasion) (fact : FactKey) :
    (e.apply news asked now).1.network.isSubscribed fact = e.network.isSubscribed fact :=
  ((supplies h.owned news).graph.trans (h.propagates news).recomputes.sameGraph).isSubscribed fact

/-- Every followed fact receives the news of a batch. -/
theorem receives_apply (h : e.Rooted spare) {fact : FactKey}
    (hsub : e.network.isSubscribed fact = true) (news : List FactUpdate)
    (asked : Option ConstraintId) (now : Occasion) :
    e.network.Receives news fact (e.apply news asked now).1.network :=
  (receives_supply h.owned.toSound hsub news).recomputes (h.propagates news).recomputes

theorem epoch_le_apply (h : e.Rooted spare) (news : List FactUpdate)
    (asked : Option ConstraintId) (now : Occasion) :
    e.network.epoch ≤ (e.apply news asked now).1.network.epoch := by
  have hepoch : (e.apply news asked now).1.network.epoch = (supply e.network news).1.epoch :=
    (h.propagates news).recomputes.epoch
  rw [hepoch]
  exact epoch_le_supply h.owned.toSound news

end Rooted

/-- A pull applies the news that it supplies as one batch, or does nothing. -/
theorem perform_applyPull (e : Engine) (plan : PullPlan) (news : List FactUpdate) (now : Occasion) :
    e.perform (.applyPull plan news now) =
        (e.apply (e.supplied (.applyPull plan news now)) (some plan.id) now).1 ∨
      (e.perform (.applyPull plan news now) = e ∧ e.supplied (.applyPull plan news now) = []) := by
  simp only [perform, applyPull, supplied]
  cases e.productions[plan.id]? with
  | none => exact Or.inr ⟨rfl, rfl⟩
  | some p =>
    by_cases hgeneration : p.generation = plan.generation
    · left
      simp only [if_pos hgeneration]
      split <;> rfl
    · right
      simp [hgeneration]

/-! ## Runs -/

/-- The settings never change. -/
theorem config_perform (e : Engine) (op : Operation) : (e.perform op).config = e.config := by
  cases op with
  | add c =>
    have houtcome := e.add_outcome c
    simp only [perform]
    generalize (e.add c).1 = after at houtcome ⊢
    generalize (e.add c).2 = reply at houtcome
    cases houtcome with
    | refused _ => rfl
    | unchanged _ => rfl
    | installed _ _ => exact config_registered e c _ _
  | remove id =>
    simp only [perform, remove]
    cases e.productions[id]? <;> rfl
  | applyFacts news now => rfl
  | applyPull plan news now =>
    rcases e.perform_applyPull plan news now with hafter | ⟨hafter, -⟩
    · rw [hafter]
      rfl
    · rw [hafter]

theorem config_run (config : RegistryConfig) (ops : List Operation) :
    ((initial config).run ops).config = config := by
  induction ops using List.reverseRecOn with
  | nil => rfl
  | append_singleton ops op ih => rw [run_concat, config_perform, ih]

namespace Rooted

variable {e : Engine} {spare : List NodeId}

/-- Every operation keeps the engine rooted. -/
theorem perform (h : e.Rooted spare) (op : Operation) : ∃ spare', (e.perform op).Rooted spare' := by
  cases op with
  | add c => exact h.add c
  | remove id => exact ⟨spare, h.remove id⟩
  | applyFacts news now => exact ⟨spare, h.apply news none now⟩
  | applyPull plan news now =>
    rcases e.perform_applyPull plan news now with hafter | ⟨hafter, -⟩
    · rw [hafter]
      exact ⟨spare, h.apply _ _ now⟩
    · rw [hafter]
      exact ⟨spare, h⟩

/-- A fact that stays followed receives the news that an operation supplies. -/
theorem receives (h : e.Rooted spare) (op : Operation) {fact : FactKey}
    (hbefore : e.network.isSubscribed fact = true)
    (hafter : (e.perform op).network.isSubscribed fact = true) :
    e.network.Receives (e.supplied op) fact (e.perform op).network := by
  cases op with
  | add c =>
    refine .of_keepsInputs ?_ hbefore hafter
    cases hreply : (e.add c).2 with
    | error reason =>
      have hsame : e.perform (.add c) = e := add_of_error hreply
      rw [hsame]
      exact Network.KeepsInputs.refl e.network
    | ok registered => exact (h.rebuilds_add hreply).inputs
  | remove id =>
    refine .of_keepsInputs ?_ hbefore hafter
    cases hreply : (e.remove id).2 with
    | error reason =>
      rcases h.remove_cases id with ⟨removed, hremoved, -⟩ | ⟨hremove, -⟩
      · rw [hreply] at hremoved
        cases hremoved
      · have hsame : e.perform (.remove id) = e := congrArg Prod.fst hremove
        rw [hsame]
        exact Network.KeepsInputs.refl e.network
    | ok removed => exact (h.rebuilds_remove hreply).inputs
  | applyFacts news now => exact h.receives_apply hbefore news none now
  | applyPull plan news now =>
    rcases e.perform_applyPull plan news now with hsame | ⟨hsame, hnews⟩
    · rw [hsame]
      exact h.receives_apply hbefore _ _ now
    · rw [hsame, hnews]
      exact .of_keepsInputs (Network.KeepsInputs.refl e.network) hbefore hbefore

/-- The count of inputs never goes back. -/
theorem epoch_le_perform (h : e.Rooted spare) (op : Operation) :
    e.network.epoch ≤ (e.perform op).network.epoch := by
  cases op with
  | add c =>
    cases hreply : (e.add c).2 with
    | error reason =>
      have hsame : e.perform (.add c) = e := add_of_error hreply
      rw [hsame]
    | ok registered => exact (h.rebuilds_add hreply).epoch.ge
  | remove id =>
    rcases h.remove_cases id with ⟨removed, -, hclears⟩ | ⟨hremove, -⟩
    · exact hclears.epoch.ge
    · have hsame : e.perform (.remove id) = e := congrArg Prod.fst hremove
      rw [hsame]
  | applyFacts news now => exact h.epoch_le_apply news none now
  | applyPull plan news now =>
    rcases e.perform_applyPull plan news now with hsame | ⟨hsame, -⟩
    · rw [hsame]
      exact h.epoch_le_apply _ _ now
    · rw [hsame]

end Rooted

/-- After every run the engine is rooted. -/
theorem rooted_run (config : RegistryConfig) (ops : List Operation) :
    ∃ spare, ((initial config).run ops).Rooted spare := by
  induction ops using List.reverseRecOn with
  | nil => exact ⟨[], rooted_initial config⟩
  | append_singleton ops op ih =>
    rcases ih with ⟨spare, h⟩
    rw [run_concat]
    exact h.perform op

end Engine
end Mandate
