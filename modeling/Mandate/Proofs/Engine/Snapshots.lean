import Mandate.Engine.Queries
import Mandate.Proofs.Engine.Run

/-!
# Snapshots

A snapshot answers every query as the engine does from which it was taken.  It finds the constraint
of a permission among the productions, and the engine finds it in the registry; it puts the
histories of productions over those that were retained, and the engine looks for one after the other.

Main results:

- Definition `Snapshot.Answers`: the snapshot gives the answers of the engine.
- Theorem `Engine.Coherent.answers`: a snapshot of a coherent engine does.
- Theorem `Engine.answers_of_run`: so does one that is taken after a run.
-/

namespace Mandate

/-- The snapshot gives the answers of the engine to all queries. -/
structure Snapshot.Answers (s : Snapshot) (e : Engine) : Prop where
  get : ∀ id, s.get id = e.get id
  list : s.list = e.list
  owner? : ∀ permission, s.owner? permission = e.owner? permission
  status : ∀ id, s.status id = e.status id
  history : ∀ id, s.history id = e.history id
  size : s.size = e.list.length
  nodes : s.nodes = e.network.size

namespace Engine

section Snapshot

variable {e : Engine}

/-- The states of a snapshot are those of the productions. -/
theorem getElem?_statuses (e : Engine) (id : ConstraintId) :
    e.snapshot.statuses[id]? = e.productions[id]?.map Production.status := by
  have hdistinct : (e.productions.toList.map fun entry => (entry.1, entry.2.status)).Pairwise
      fun a b => ¬ compare a.1 b.1 = .eq :=
    List.pairwise_map.2 e.productions.distinct_keys_toList
  refine Option.ext fun status => ?_
  rw [Option.map_eq_some_iff]
  refine (getElem?_ofList_iff hdistinct).trans ?_
  rw [List.mem_map]
  constructor
  · rintro ⟨⟨other, p⟩, hp, heq⟩
    cases heq
    exact ⟨p, mem_toList_iff.1 hp, rfl⟩
  · rintro ⟨p, hp, rfl⟩
    exact ⟨(id, p), mem_toList_iff.2 hp, rfl⟩

/-- The histories of productions come before those that were retained. -/
theorem getElem?_histories (e : Engine) (id : ConstraintId) :
    e.snapshot.histories[id]? = (e.productions[id]?.map Production.history).or e.retired[id]? :=
  getElem?_foldl_insert e.productions Production.history e.retired id

theorem history_eq (e : Engine) (id : ConstraintId) :
    e.history id = orNotFound id ((e.productions[id]?.map Production.history).or e.retired[id]?) := by
  unfold history
  cases e.productions[id]? <;> rfl

namespace Coherent

/-- No two productions have the same permission. -/
theorem eq_of_permission (h : e.Coherent []) {id other : ConstraintId} {p q : Production}
    (hp : e.productions[id]? = some p) (hq : e.productions[other]? = some q)
    (hsame : p.constraint.permission = q.constraint.permission) : id = other := by
  have hid := (h.owner_iff p.constraint.permission id).2 ⟨p, hp, rfl⟩
  have hother := (h.owner_iff p.constraint.permission other).2 ⟨q, hq, hsame.symm⟩
  rw [hid, Option.some.injEq] at hother
  exact hother

/-- The permissions of productions stand for the identities that the registry has for them. -/
theorem getElem?_owners (h : e.Coherent []) (permission : PermId) :
    e.snapshot.owners[permission]? = e.registry.owner? permission := by
  have hdistinct : (e.productions.toList.map fun entry =>
      (entry.2.constraint.permission, entry.2.id)).Pairwise
        fun a b => ¬ compare a.1 b.1 = .eq := by
    refine List.pairwise_map.2 (e.productions.distinct_keys_toList.imp_of_mem ?_)
    intro a b ha hb hne heq
    have hsame := Std.LawfulEqCmp.eq_of_compare heq
    rw [h.eq_of_permission (mem_toList_iff.1 ha) (mem_toList_iff.1 hb) hsame] at hne
    exact hne Std.ReflOrd.compare_self
  refine Option.ext fun id => ?_
  rw [h.owner_iff]
  refine (getElem?_ofList_iff hdistinct).trans ?_
  rw [List.mem_map]
  constructor
  · rintro ⟨⟨other, p⟩, hp, heq⟩
    cases heq
    have hthere := mem_toList_iff.1 hp
    rw [(h.faithful hthere).id_eq]
    exact ⟨p, hthere, rfl⟩
  · rintro ⟨p, hp, rfl⟩
    exact ⟨(id, p), mem_toList_iff.2 hp, Prod.ext rfl (h.faithful hp).id_eq⟩

/-- A snapshot of a coherent engine gives the answers of the engine. -/
theorem answers (h : e.Coherent []) : e.snapshot.Answers e where
  get _ := rfl
  list := rfl
  owner? := h.getElem?_owners
  status id := congrArg (orNotFound id) (e.getElem?_statuses id)
  history id := by rw [history_eq, Snapshot.history, getElem?_histories]
  size := Std.TreeMap.length_toList.symm
  nodes := rfl

end Coherent

/-- After every run, a snapshot gives the answers of the engine. -/
theorem answers_of_run (config : RegistryConfig) {ops : List Operation} (hops : Unambiguous ops) :
    ((initial config).run ops).snapshot.Answers ((initial config).run ops) :=
  (reached config ops hops).1.answers

end Snapshot

end Engine
end Mandate
