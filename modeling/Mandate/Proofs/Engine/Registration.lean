import Mandate.Proofs.Engine.Coherence

/-!
# Registration

A registration compiles the constraint on top of the present network, then takes out the production
that it replaces, and enters the new one.  A removal takes a production out.

Main results:

- Definition `Leaves`: what taking out at most one production does.
- Theorem `Coherent.withdraw`: a production is taken out.
- Definition `Adds`: the outcomes of a registration.
- Theorem `Coherent.adds`: a registration has one of them.
- Theorems `Coherent.add`, `Coherent.remove`: the engine is kept coherent.
- Theorems `Adds.follows`, `Coherent.follows_remove`: the facts that are reported.
-/

namespace Mandate

/-- The facts `new` are followed after a change but not before, and the facts `dropped` the other
way round. -/
structure Network.Follows (before after : Network) (new dropped : List FactKey) : Prop where
  new_nodup : new.Nodup
  dropped_nodup : dropped.Nodup
  mem_new_iff : ∀ fact,
    fact ∈ new ↔ after.isSubscribed fact = true ∧ ¬ before.isSubscribed fact = true
  mem_dropped_iff : ∀ fact,
    fact ∈ dropped ↔ before.isSubscribed fact = true ∧ ¬ after.isSubscribed fact = true

theorem Network.Follows.refl (net : Network) : net.Follows net [] [] := by
  constructor <;> simp

/-- A fact that is reported neither way is followed if and only if it was. -/
theorem Network.Follows.isSubscribed_eq {before after : Network} {new dropped : List FactKey}
    (h : before.Follows after new dropped) {fact : FactKey} (hfact : fact ∉ new ++ dropped) :
    after.isSubscribed fact = before.isSubscribed fact := by
  rw [List.mem_append, h.mem_new_iff, h.mem_dropped_iff] at hfact
  cases hbefore : before.isSubscribed fact <;> cases hafter : after.isSubscribed fact <;>
    simp_all

/-- A circuit is built, then some nodes are taken out while its root is held.  The facts that are new
to the building are followed in the end, and those that the taking out drops are the others. -/
theorem Network.Builds.follows {net after : Network} {held rest : List NodeId} {circuit : Circuit}
    {built : Network.Built} {dropped : List FactKey} (h : net.Builds held circuit built)
    (howned : after.Owned (built.root :: rest)) (hkeeps : after.Keeps built.network)
    (hnodup : dropped.Nodup)
    (hdropped : ∀ fact, fact ∈ dropped ↔
      built.network.isSubscribed fact = true ∧ ¬ after.isSubscribed fact = true)
    (hsub : ∀ fact, after.isSubscribed fact = true → built.network.isSubscribed fact = true) :
    net.Follows after built.newFacts dropped := by
  -- whatever the new circuit reads is followed in the end
  have hlive : after.Live built.root := howned.held_live List.mem_cons_self
  have hread : ∀ fact ∈ circuit.facts, after.isSubscribed fact = true := by
    intro fact hfact
    exact (howned.isSubscribed_iff fact).2
      ⟨built.root, List.mem_cons_self, circuit, howned.unfolds_of_keeps hkeeps h.unfolds hlive, hfact⟩
  constructor
  · exact h.newFacts_nodup
  · exact hnodup
  · intro fact
    refine (h.mem_newFacts fact).trans (and_congr_left fun hnot => ?_)
    constructor
    · exact hread fact
    · intro hfollowed
      exact ((h.subscribed fact).1 (hsub fact hfollowed)).resolve_left hnot
  · intro fact
    refine (hdropped fact).trans (and_congr_left fun hnot => ?_)
    refine (h.subscribed fact).trans (or_iff_left ?_)
    exact fun hfact => hnot (hread fact hfact)

namespace Engine

/-! ## Taking productions out -/

/-- The production `gone`, if there is one, has been taken out of the engine. -/
structure Leaves (e : Engine) (spare : List NodeId) (gone : Option ConstraintId) (after : Engine)
    (dropped : List FactKey) : Prop where
  coherent : after.Coherent spare
  productions : ∀ id p, after.productions[id]? = some p ↔
    some id ≠ gone ∧ e.productions[id]? = some p
  keeps : after.network.Keeps e.network
  dropped_nodup : dropped.Nodup
  mem_dropped_iff : ∀ fact, fact ∈ dropped ↔
    e.network.isSubscribed fact = true ∧ ¬ after.network.isSubscribed fact = true
  subscribed : ∀ fact, after.network.isSubscribed fact = true → e.network.isSubscribed fact = true

namespace Leaves

variable {e after : Engine} {spare spare' : List NodeId} {gone : Option ConstraintId}
  {dropped : List FactKey}

/-- Nobody has gone. -/
theorem refl (h : e.Coherent spare) : e.Leaves spare none e [] where
  coherent := h
  productions := by simp
  keeps := Network.Keeps.refl e.network
  dropped_nodup := List.nodup_nil
  mem_dropped_iff := by simp
  subscribed := fun _ hfollowed => hfollowed

/-- The permission of the production that has gone is free. -/
theorem owner_eq_none (h : e.Leaves spare gone after dropped) (he : e.Coherent spare')
    {permission : PermId} (hgone : e.registry.owner? permission = gone) :
    after.registry.owner? permission = none := by
  cases howner : after.registry.owner? permission with
  | none => rfl
  | some id =>
    rcases (h.coherent.owner_iff permission id).1 howner with ⟨p, hp, hpermission⟩
    rcases (h.productions id p).1 hp with ⟨hne, hold⟩
    have hsame := (he.owner_iff permission id).2 ⟨p, hold, hpermission⟩
    exact (hne (hsame.symm.trans hgone)).elim

end Leaves

namespace Coherent

variable {e : Engine} {spare : List NodeId} {id : ConstraintId} {p : Production}

/-- The engine gives back a root that none of its productions needs. -/
theorem release {root : NodeId} (h : e.Coherent (root :: spare)) :
    ({ e with network := (e.network.release root).network } : Engine).Coherent spare := by
  have hreleases : e.network.Releases (spare ++ e.roots) (e.network.release root) :=
    h.owned.release
  have hlive : ∀ other ∈ e.roots, (e.network.release root).network.Live other := fun other hother =>
    hreleases.owned.held_live (List.mem_append_right _ hother)
  refine h.replaceNetwork hreleases.owned hreleases.wrapsAt ?_ ?_ ?_
  · refine ⟨fun due hdue => ?_, hreleases.consistent h.settled.consistent⟩
    exact h.settled.dirty due (hreleases.dirty due hdue)
  · intro other hother c hc
    exact hreleases.owned.unfolds_of_keeps hreleases.keeps hc (hlive other hother)
  · intro other hother
    exact (hreleases.keeps.value (hlive other hother)).symm

/-- A production is taken out and its root is given back. -/
theorem withdraw (h : e.Coherent spare) (hp : e.productions[id]? = some p) :
    e.Leaves spare (some id) (e.withdraw p).1 (e.withdraw p).2.droppedFacts := by
  have hid : p.id = id := (h.faithful hp).id_eq
  have hgone := h.unregister hp
    (if e.config.retainHistory then e.retired.insert id p.history else e.retired)
  have hreleases := hgone.owned.release
  have hafter : (e.withdraw p).1 =
      { e with
        registry := e.registry.erase id
        network := (e.network.release p.root).network
        productions := e.productions.erase id
        retired := if e.config.retainHistory then e.retired.insert id p.history else e.retired } := by
    unfold Engine.withdraw
    rw [hid]
  rw [hafter]
  constructor
  · exact hgone.release
  · intro other q
    dsimp only
    rw [getElem?_erase_eq]
    by_cases hother : other = id <;> simp [hother]
  · exact hreleases.keeps
  · exact hreleases.dropped_nodup
  · exact hreleases.mem_dropped
  · exact hreleases.subscribed

end Coherent

/-! ## Registering -/

/-- No other constraint is registered under the identity of this one. -/
def Distinguishes (e : Engine) (c : Constraint) : Prop :=
  ∀ p, e.productions[ConstraintId.derive c]? = some p → p.constraint = c

/-- How a registration that takes the place of another one, or of none, is reported. -/
def kindOf : Option ConstraintId → Registration
  | none => .added
  | some old => .replaced old

/-- The outcomes of a registration. -/
inductive Adds (e : Engine) (c : Constraint) : Engine → Except ServiceError Registered → Prop
  /-- Nothing is registered. -/
  | failed (reason : ServiceError) : Adds e c e (.error reason)
  /-- The constraint is registered already. -/
  | unchanged {p : Production} :
      e.productions[ConstraintId.derive c]? = some p →
      Adds e c e (.ok ⟨ConstraintId.derive c, .unchanged, [], []⟩)
  /-- The circuit has been built, the old production has gone, and the new one has been entered. -/
  | installed {old : Option ConstraintId} {circuit : Circuit} {built : Network.Built}
      {room : Engine} {dropped : List FactKey} :
      e.productions[ConstraintId.derive c]? = none →
      e.registry.owner? c.permission = old →
      c.Lowers circuit →
      e.network.Builds e.roots circuit built →
      Leaves { e with network := built.network } [built.root] old room dropped →
      Adds e c (room.enter (ConstraintId.derive c) c built.root)
        (.ok ⟨ConstraintId.derive c, kindOf old, built.newFacts, dropped⟩)

/-- The root that has been built stands for its circuit also when room has been made. -/
theorem Leaves.unfolds_root {e room : Engine} {held : List NodeId} {circuit : Circuit}
    {built : Network.Built} {gone : Option ConstraintId} {dropped : List FactKey}
    (h : Leaves { e with network := built.network } [built.root] gone room dropped)
    (hbuilds : e.network.Builds held circuit built) :
    room.network.Unfolds built.root circuit := by
  have hlive : room.network.Live built.root :=
    h.coherent.owned.held_live (List.mem_append_left _ (List.mem_singleton_self _))
  exact h.coherent.owned.unfolds_of_keeps h.keeps hbuilds.unfolds hlive

namespace Coherent

variable {e : Engine} {c : Constraint}

/-- A circuit is built on top of the network of the engine. -/
theorem build {circuit : Circuit} {built : Network.Built} (h : e.Coherent [])
    (hbuilds : e.network.Builds e.roots circuit built) :
    ({ e with network := built.network } : Engine).Coherent [built.root] := by
  refine h.replaceNetwork hbuilds.owned hbuilds.wrapsAt ?_ ?_ ?_
  · refine ⟨?_, hbuilds.consistent h.settled.consistent⟩
    rw [hbuilds.dirty]
    exact h.settled.dirty
  · intro root _ c hc
    exact hc.mono hbuilds.keeps
  · intro root hroot
    exact hbuilds.keeps.value (h.owned.held_live (by simpa using hroot))

/-- Room is made for a new production of a permission. -/
theorem displace {old : ConstraintId} {spare : List NodeId} (h : e.Coherent spare)
    (hold : e.registry.owner? c.permission = some old) :
    e.Leaves spare (some old) (e.displace old).1 (e.displace old).2 := by
  rcases (h.owner_iff c.permission old).1 hold with ⟨p, hp, -⟩
  have hdisplace : e.displace old = ((e.withdraw p).1, (e.withdraw p).2.droppedFacts) := by
    simp only [Engine.displace, hp]
  rw [hdisplace]
  exact h.withdraw hp

/-- Installing a constraint fails, or installs it in the place of the production of its
permission. -/
theorem install {old : Option ConstraintId} (h : e.Coherent [])
    (hnew : e.productions[ConstraintId.derive c]? = none)
    (hold : e.registry.owner? c.permission = old) :
    e.Adds c (e.install (ConstraintId.derive c) c old).1
      (e.install (ConstraintId.derive c) c old).2 := by
  unfold Engine.install
  cases hcompile : e.network.compile c with
  | error reason => exact .failed _
  | ok built =>
    have howned : e.network.Owned e.roots := h.owned
    have hroom : e.network.HasRoomToCompile c := fun circuit _ =>
      Network.hasRoomToBuild_of_unbounded h.unbounded circuit
    rcases howned.compile hcompile hroom with ⟨circuit, hlowers, hbuilds⟩
    have hbuilt := h.build hbuilds
    cases old with
    | none => exact .installed hnew hold hlowers hbuilds (Leaves.refl hbuilt)
    | some old => exact .installed hnew hold hlowers hbuilds (hbuilt.displace hold)

/-- A registration fails, finds the constraint registered, or installs it. -/
theorem adds (h : e.Coherent []) (hc : e.Distinguishes c) : e.Adds c (e.add c).1 (e.add c).2 := by
  -- under the identity nothing is registered but the constraint, which owns its permission
  have hown : ∀ p, e.productions[ConstraintId.derive c]? = some p →
      e.registry.owner? c.permission = some (ConstraintId.derive c) := by
    intro p hp
    exact (h.owner_iff _ _).2 ⟨p, hp, by rw [hc p hp]⟩
  have hnew : e.registry.owner? c.permission ≠ some (ConstraintId.derive c) →
      e.productions[ConstraintId.derive c]? = none := by
    intro hne
    cases hp : e.productions[ConstraintId.derive c]? with
    | none => rfl
    | some p => exact (hne (hown p hp)).elim
  have howners : e.registry.owners[c.permission]? = e.registry.owner? c.permission := rfl
  cases howner : e.registry.owner? c.permission with
  | none =>
    have hadd : e.add c = e.install (ConstraintId.derive c) c none := by
      simp only [Engine.add, Registry.admission, howners, howner]
    rw [hadd]
    exact h.install (hnew (by simp [howner])) howner
  | some old =>
    by_cases hsame : old = ConstraintId.derive c
    · have hadd : e.add c = (e, .ok ⟨ConstraintId.derive c, .unchanged, [], []⟩) := by
        simp only [Engine.add, Registry.admission, howners, howner, if_pos hsame]
      rcases (h.owner_iff c.permission old).1 howner with ⟨p, hp, -⟩
      rw [hadd]
      exact .unchanged (hsame ▸ hp)
    · cases hpolicy : e.config.duplicatePolicy with
      | reject =>
        have hadd : e.add c = (e, .error (.duplicate c.permission old)) := by
          simp only [Engine.add, Registry.admission, howners, howner, if_neg hsame, hpolicy]
        rw [hadd]
        exact .failed _
      | replace =>
        have hadd : e.add c = e.install (ConstraintId.derive c) c (some old) := by
          simp only [Engine.add, Registry.admission, howners, howner, if_neg hsame, hpolicy]
        have hne : some old ≠ some (ConstraintId.derive c) := fun heq =>
          hsame (Option.some.inj heq)
        rw [hadd]
        exact h.install (hnew (by rw [howner]; exact hne)) howner

end Coherent

namespace Adds

variable {e after : Engine} {c : Constraint} {reply : Except ServiceError Registered}

/-- A registration keeps the engine coherent. -/
theorem coherent (ha : e.Adds c after reply) (h : e.Coherent []) : after.Coherent [] := by
  cases ha with
  | failed reason => exact h
  | unchanged hp => exact h
  | @installed old circuit built room dropped hnew hold hlowers hbuilds hleaves =>
    have hbuilt := h.build hbuilds
    refine hleaves.coherent.enter rfl ?_ (hleaves.owner_eq_none hbuilt hold) hlowers
      (hleaves.unfolds_root hbuilds)
    cases hp : room.productions[ConstraintId.derive c]? with
    | none => rfl
    | some p =>
      have hthere := ((hleaves.productions _ p).1 hp).2
      rw [hnew] at hthere
      cases hthere

/-- The facts that a registration reports are those whose following begins or ends. -/
theorem follows {registered : Registered} (ha : e.Adds c after (.ok registered)) :
    e.network.Follows after.network registered.newFacts registered.droppedFacts := by
  cases ha with
  | unchanged hp => exact Network.Follows.refl e.network
  | @installed old circuit built room dropped hnew hold hlowers hbuilds hleaves =>
    exact hbuilds.follows hleaves.coherent.owned hleaves.keeps hleaves.dropped_nodup
      hleaves.mem_dropped_iff hleaves.subscribed

/-- A production that is there after a registration has been installed by it, and has not been
evaluated, or was there before. -/
theorem productions (ha : e.Adds c after reply) {id : ConstraintId} {p : Production}
    (hp : after.productions[id]? = some p) :
    (e.productions[id]? = some p ∧ ∀ registered, reply = .ok registered → registered.id = id →
        registered.kind = .unchanged) ∨
      (p.constraint = c ∧ p.state = .unknown ∧ ∃ registered, reply = .ok registered ∧
        registered.id = id ∧ registered.kind ≠ .unchanged) := by
  cases ha with
  | failed reason =>
    left
    refine ⟨hp, ?_⟩
    intro registered hreply
    cases hreply
  | unchanged hold =>
    left
    refine ⟨hp, ?_⟩
    intro registered hreply _
    cases hreply
    rfl
  | @installed old circuit built room dropped hnew hold hlowers hbuilds hleaves =>
    rw [productions_enter] at hp
    by_cases hid : id = ConstraintId.derive c
    · rw [if_pos hid] at hp
      cases hp
      right
      refine ⟨rfl, rfl, _, rfl, hid.symm, ?_⟩
      cases old <;> simp [kindOf]
    · rw [if_neg hid] at hp
      left
      refine ⟨((hleaves.productions id p).1 hp).2, ?_⟩
      intro registered hreply hsame
      cases hreply
      exact (hid hsame.symm).elim

end Adds

/-- A constraint that has a circuit is registered if its permission is free. -/
theorem add_of_free {e : Engine} {c : Constraint} {circuit : Circuit}
    (hfree : e.registry.owner? c.permission = none) (hlowers : c.Lowers circuit) :
    e.add c =
      (({ e with network := (e.network.build circuit).network } : Engine).enter
          (ConstraintId.derive c) c (e.network.build circuit).root,
        .ok ⟨ConstraintId.derive c, .added, (e.network.build circuit).newFacts, []⟩) := by
  have howner : e.registry.owners[c.permission]? = none := hfree
  have hcompile : e.network.compile c = .ok (e.network.build circuit) :=
    (e.network.compile_eq_ok_iff c _).2 ⟨circuit, hlowers, rfl⟩
  simp only [Engine.add, Registry.admission, howner, Engine.install, hcompile]

/-- The productions after a constraint has been registered for a free permission. -/
theorem productions_add_of_free {e : Engine} {c : Constraint} {circuit : Circuit}
    (hfree : e.registry.owner? c.permission = none) (hlowers : c.Lowers circuit)
    (other : ConstraintId) :
    (e.add c).1.productions[other]? =
      if other = ConstraintId.derive c then
        some (e.entered (ConstraintId.derive c) c (e.network.build circuit).root)
      else e.productions[other]? := by
  rw [add_of_free hfree hlowers, productions_enter]
  rfl

/-- The identities that stand for permissions after a constraint has been registered for a free
one. -/
theorem owner?_add_of_free {e : Engine} {c : Constraint} {circuit : Circuit}
    (hfree : e.registry.owner? c.permission = none) (hlowers : c.Lowers circuit)
    (permission : PermId) :
    (e.add c).1.registry.owner? permission =
      if permission = c.permission then some (ConstraintId.derive c)
      else e.registry.owner? permission := by
  rw [add_of_free hfree hlowers]
  exact Registry.owner?_insert _ _ _ _

namespace Coherent

variable {e : Engine}

theorem add {c : Constraint} (h : e.Coherent []) (hc : e.Distinguishes c) :
    (e.add c).1.Coherent [] :=
  (h.adds hc).coherent h

/-! ## Removing -/

/-- A removal takes the production out, if there is one. -/
theorem removes (h : e.Coherent []) (id : ConstraintId) :
    (∃ p removed, e.productions[id]? = some p ∧ (e.remove id).2 = .ok removed ∧
        e.Leaves [] (some id) (e.remove id).1 removed.droppedFacts) ∨
      (e.productions[id]? = none ∧ e.remove id = (e, .error (.notFound id))) := by
  unfold Engine.remove
  cases hp : e.productions[id]? with
  | none => exact Or.inr ⟨rfl, rfl⟩
  | some p => exact Or.inl ⟨p, _, rfl, rfl, h.withdraw hp⟩

theorem remove (h : e.Coherent []) (id : ConstraintId) : (e.remove id).1.Coherent [] := by
  rcases h.removes id with ⟨p, removed, -, -, hleaves⟩ | ⟨-, hremove⟩
  · exact hleaves.coherent
  · rw [hremove]
    exact h

/-- The facts that a removal reports are those whose following ends. -/
theorem follows_remove {id : ConstraintId} {removed : Removed} (h : e.Coherent [])
    (hremoved : (e.remove id).2 = .ok removed) :
    e.network.Follows (e.remove id).1.network [] removed.droppedFacts := by
  rcases h.removes id with ⟨p, other, -, hother, hleaves⟩ | ⟨-, hremove⟩
  · have hsame : other = removed := Except.ok.inj (hother.symm.trans hremoved)
    subst hsame
    constructor
    · exact List.nodup_nil
    · exact hleaves.dropped_nodup
    · intro fact
      simp only [List.not_mem_nil, false_iff, not_and, not_not]
      exact hleaves.subscribed fact
    · exact hleaves.mem_dropped_iff
  · rw [hremove] at hremoved
    cases hremoved

/-- A production that is there after a removal was there before. -/
theorem productions_remove {id other : ConstraintId} {p : Production} (h : e.Coherent [])
    (hp : (e.remove id).1.productions[other]? = some p) : e.productions[other]? = some p := by
  rcases h.removes id with ⟨q, removed, -, -, hleaves⟩ | ⟨-, hremove⟩
  · exact ((hleaves.productions other p).1 hp).2
  · rwa [hremove] at hp

end Coherent
end Engine
end Mandate
