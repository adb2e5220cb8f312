import Mandate.Proofs.Network.Room
import Mandate.Scenario

/-!
# References that are not counted

A user may have more references to a node than the network has counted.  A count that has reached
the end of its range starts again at zero.  And a user may retain a node that is gone, which counts
nothing, and take it that he has a reference; the place of the node may go to another one later.  In
both cases giving back one of the references may take a node out while others still have it as a
child.

Main results:

- Theorem `Ledger.run_retains_all`: when the count of a node has come round, the network is what it
  was.
- Definitions `Ledger.book`, `Ledger.Booked`: the books of a user who takes it that every node that
  he retains is there.
- Definition `Ledger.Bereft`: a node that can be reached from a reference has lost a child.
- Theorems `Ledger.bereft_wrapped`, `Ledger.bereft_stale`: it comes to that in both cases.
-/

namespace Mandate
namespace Network

/-! ## A count that comes round -/

variable {net : Network} {id : NodeId} {node : Node}

/-- Some references more to a node, whose count wraps around. -/
def retainBy (net : Network) (id : NodeId) (n : Nat) : Network :=
  net.modify id fun node => { node with refcount := (node.refcount + n) % net.wrapsAt }

theorem retain_retainBy (net : Network) (id : NodeId) (n : Nat) :
    (net.retainBy id n).retain id = net.retainBy id (n + 1) := by
  simp only [retain, retainBy, modify_modify]
  simp only [Network.modify, Nat.mod_add_mod, Nat.add_assoc]

/-- If the count is the same in the end, so is the network. -/
theorem retainBy_eq_self (hnode : net.node? id = some node) {n : Nat}
    (hcount : (node.refcount + n) % net.wrapsAt = node.refcount) : net.retainBy id n = net := by
  refine modify_eq_self fun same hsame => ?_
  rw [hnode, Option.some.injEq] at hsame
  rw [← hsame, hcount]

theorem live_retainBy (hlive : net.Live id) (n : Nat) : (net.retainBy id n).Live id := by
  rcases hlive with ⟨node, hnode⟩
  exact ⟨_, by rw [retainBy, node?_modify, if_pos rfl, hnode, Option.map_some]⟩

end Network

namespace Ledger

open Network

section Retaining

variable {l : Ledger} {id : NodeId} {node : Node}

/-- Every retaining hands out a reference, however far the count goes. -/
theorem run_retains (hnode : l.network.node? id = some node)
    (hcount : node.refcount < l.network.wrapsAt) (n : Nat) :
    l.run (List.replicate n (.retain id)) =
      { l with network := l.network.retainBy id n, held := List.replicate n id ++ l.held } := by
  induction n with
  | zero =>
    have hsame : l.network.retainBy id 0 = l.network :=
      retainBy_eq_self hnode (Nat.mod_eq_of_lt hcount)
    rw [hsame]
    rfl
  | succ n ih =>
    have hlast : l.run (List.replicate (n + 1) (.retain id)) =
        (l.run (List.replicate n (.retain id))).perform (.retain id) := by
      simp only [run, List.replicate_succ', List.foldl_append, List.foldl_cons, List.foldl_nil]
    have hlive : ((l.network.retainBy id n).node? id).isSome = true :=
      Option.isSome_iff_exists.2 (live_retainBy ⟨node, hnode⟩ n)
    rw [hlast, ih]
    simp only [perform, hlive, if_true, retain_retainBy]
    rfl

/-- When the count of a node has come round, the network is what it was. -/
theorem run_retains_all (hnode : l.network.node? id = some node)
    (hcount : node.refcount < l.network.wrapsAt) :
    l.run (List.replicate l.network.wrapsAt (.retain id)) =
      { l with held := List.replicate l.network.wrapsAt id ++ l.held } := by
  have hround : (node.refcount + l.network.wrapsAt) % l.network.wrapsAt = node.refcount := by
    rw [Nat.add_mod_right, Nat.mod_eq_of_lt hcount]
  rw [run_retains hnode hcount, retainBy_eq_self hnode hround]

theorem honest_retains {n : Nat} {calls : List NetworkCall}
    (h : (l.run (List.replicate n (.retain id))).Honest calls) :
    l.Honest (List.replicate n (.retain id) ++ calls) := by
  induction n generalizing l with
  | zero => exact h
  | succ n ih => exact ⟨trivial, ih h⟩

end Retaining

/-! ## Books that take every node to be there -/

/-- What a call does, and the references that its user takes himself to have: one for every node
that he retains, whether the node is there or not. -/
def book (l : Ledger) : NetworkCall → Ledger
  | .retain id => { l with network := l.network.retain id, held := id :: l.held }
  | call => l.perform call

theorem book_compile (l : Ledger) (c : Constraint) : l.book (.compile c) = l.perform (.compile c) :=
  rfl

theorem book_release (l : Ledger) (id : NodeId) : l.book (.release id) = l.perform (.release id) :=
  rfl

/-- What calls do, one after the other, with such books. -/
def bookAll (l : Ledger) (calls : List NetworkCall) : Ledger :=
  calls.foldl book l

/-- By the books, every call gives back a reference that its user has, if it gives back any. -/
def Booked (l : Ledger) : List NetworkCall → Prop
  | [] => True
  | call :: calls => l.Permits call ∧ (l.book call).Booked calls

/-! ## A node that is about to lose a child -/

/-- The constraint that `6 ≤ 8`. -/
def ordered : Constraint :=
  ⟨⟨"p"⟩, .compare .lte (.literal ⟨6, by decide⟩) (.literal ⟨8, by decide⟩)⟩

/-- The circuit of the constraint. -/
def orderedCircuit : Circuit :=
  .binary (.compare .lte) (.leaf (.literal 6)) (.leaf (.literal 8))

theorem perform_ordered (l : Ledger) :
    l.perform (.compile ordered) =
      { l with
        network := (l.network.build orderedCircuit).network
        held := (l.network.build orderedCircuit).root :: l.held } :=
  rfl

/-- The node at a place compares two others, and there is one reference to the first of them. -/
structure Standing (net : Network) (root : NodeId) : Prop where
  child : ∃ node, net.node? ⟨0⟩ = some node ∧ node.key = ⟨.literal 6, []⟩ ∧ node.refcount = 1
  parent : ∃ node other, net.node? root = some node ∧
    node.key = ⟨.compare .lte, [⟨0⟩, other]⟩ ∧ node.value = .bool true
  settled : ∀ due, due ∉ net.dirty

/-- A node that can be reached from a reference compares a node that is gone with another one, has
a value all the same, and does not wait for a new one. -/
structure Bereft (l : Ledger) : Prop where
  parent : ∃ root ∈ l.held, ∃ node other, l.network.node? root = some node ∧
    node.key = ⟨.compare .lte, [⟨0⟩, other]⟩ ∧ node.value = .bool true
  gone : ¬ l.network.Live ⟨0⟩
  settled : ∀ due, due ∉ l.network.dirty

namespace Standing

variable {net : Network} {root : NodeId}

/-- The comparison has been built over the first place. -/
theorem of_builds {held : List NodeId} {built : Built}
    (hbuilds : net.Builds held orderedCircuit built) (hcons : net.Consistent)
    (hempty : ∀ due, due ∉ net.dirty)
    (hchild : ∃ node, built.network.node? ⟨0⟩ = some node ∧ node.key = ⟨.literal 6, []⟩ ∧
      node.refcount = 1) : Standing built.network built.root := by
  have hsettled : built.network.Settled := by
    refine ⟨?_, hbuilds.consistent hcons⟩
    rw [hbuilds.dirty]
    exact hempty
  have hvalue := hsettled.value_of_unfolds hbuilds.owned.toSound hbuilds.unfolds
  refine ⟨hchild, ?_, hsettled.dirty⟩
  rcases hchild with ⟨child, hchild, hchildKey, -⟩
  cases hbuilds.unfolds with
  | binary hnode hkey hfirst _ =>
    cases hfirst with
    | leaf hleaf hleafKey =>
      obtain rfl := hbuilds.owned.eq_of_key hleaf hchild (hleafKey.trans hchildKey.symm)
      exact ⟨_, _, hnode, hkey, (value_of_node? hnode).symm.trans hvalue⟩

theorem root_ne (h : Standing net root) : root ≠ ⟨0⟩ := by
  rintro rfl
  rcases h.child with ⟨child, hchild, hchildKey, -⟩
  rcases h.parent with ⟨parent, other, hparent, hparentKey, -⟩
  rw [hchild, Option.some.injEq] at hparent
  rw [hparent, hparentKey] at hchildKey
  cases hchildKey

/-- A reference to the child is given back. -/
theorem bereft {l : Ledger} (h : Standing l.network root) (hroot : root ∈ l.held) :
    (l.perform (.release ⟨0⟩)).Bereft := by
  have hheld : root ∈ l.held.erase ⟨0⟩ := (List.mem_erase_of_ne h.root_ne).2 hroot
  rcases h.child with ⟨child, hchild, hchildKey, hcount⟩
  rcases h.parent with ⟨parent, other, hparent, hparentKey, hvalue⟩
  have hlast : ¬ 1 < child.refcount := by omega
  have hleaf : child.key.children = [] := by rw [hchildKey]
  rw [perform, release_leaf hchild hlast hleaf]
  constructor
  · refine ⟨root, hheld, _, other, Sound.node?_discard_of_node? h.root_ne hparent, ?_, ?_⟩
    · rw [besideGap_key, hparentKey]
    · rw [(Node.eq_of_bare (bare_besideGap _ _ _ parent)).value, hvalue]
  · rintro ⟨left, hleft⟩
    exact (Sound.node?_discard_cases hleft).1 rfl
  · intro due hdue
    exact h.settled due (Sound.mem_dirty_discard_iff.1 hdue).1

end Standing

/-! ## The first place -/

/-- The user has no reference, and the first place is the next to be filled. -/
structure Fresh (l : Ledger) : Prop where
  kept : l.Kept
  held : l.held = []
  nextId : l.network.nextId = ⟨0⟩

theorem fresh_empty : ({} : Ledger).Fresh where
  kept := kept_empty
  held := rfl
  nextId := by simp [Network.nextId, allocate]

namespace Fresh

variable {l : Ledger}

theorem not_live (h : l.Fresh) (id : NodeId) : ¬ l.network.Live id := by
  intro hlive
  rcases h.kept.owned.exists_root hlive with ⟨root, hroot, -⟩
  rw [h.held] at hroot
  cases hroot

theorem find?_eq_none (h : l.Fresh) (key : NodeKey) : l.network.find? key = none :=
  h.kept.owned.toSound.find?_eq_none_iff.2 fun id node hnode => (h.not_live id ⟨node, hnode⟩).elim

/-- The first literal takes the first place, and the node above it is a new one. -/
theorem child_build (h : l.Fresh) :
    ∃ node, (l.network.build orderedCircuit).network.node? ⟨0⟩ = some node ∧
      node.key = ⟨.literal 6, []⟩ ∧ node.refcount = 1 := by
  have hfirst := h.find?_eq_none ⟨.literal 6, []⟩
  have hsecond : (l.network.create ⟨.literal 6, []⟩).1.find? ⟨.literal 8, []⟩ = none :=
    (find?_create_of_ne _ (by simp)).trans (h.find?_eq_none _)
  have hthird : ∀ other, ((l.network.create ⟨.literal 6, []⟩).1.create ⟨.literal 8, []⟩).1.find?
      ⟨.compare .lte, [⟨0⟩, other]⟩ = none := fun other =>
    (find?_create_of_ne _ (by simp)).trans
      ((find?_create_of_ne _ (by simp)).trans (h.find?_eq_none _))
  have hsound := h.kept.owned.toSound
  have hsoundFirst := hsound.create (NodeKey.wellFormed_leaf (.literal 6)) hfirst
  have hsoundSecond := hsoundFirst.create (NodeKey.wellFormed_leaf (.literal 8)) hsecond
  have hnode := hsound.node?_create_nextId ⟨.literal 6, []⟩
  rw [h.nextId] at hnode
  have hkept := hsoundFirst.node?_create_of_node? ⟨.literal 8, []⟩ hnode
  simp only [orderedCircuit, Network.build, intern_of_none hfirst, create_id, h.nextId,
    intern_of_none hsecond, intern_of_none (hthird _)]
  exact ⟨_, hsoundSecond.node?_create_of_node? _ hkept, by simp [newNode], by simp [newNode]⟩

/-- A comparison that has been built stands on the first place. -/
theorem standing (h : l.Fresh) (hroom : l.HasRoom (.compile ordered)) :
    Standing (l.network.build orderedCircuit).network (l.network.build orderedCircuit).root := by
  have hlowers : ordered.Lowers orderedCircuit := (ordered.lower_eq_ok_iff _).1 rfl
  have hbuilds := h.kept.owned.build (Formula.Lowers.wellFormed hlowers) (hroom _ hlowers)
  refine .of_builds hbuilds h.kept.consistent (fun due hdue => ?_) h.child_build
  rcases h.kept.owned.dirty due hdue with ⟨node, hnode, -⟩
  exact h.not_live due.id ⟨node, hnode⟩

theorem perform_existence (h : l.Fresh) :
    l.perform (.compile Scenario.existence) =
      { l with
        network := (l.network.create ⟨.fact (.permissionExists ⟨"p1"⟩), []⟩).1
        held := [⟨0⟩] } := by
  have hcompile : l.network.compile Scenario.existence =
      .ok (l.network.build (.leaf (.fact (.permissionExists ⟨"p1"⟩)))) := rfl
  rw [perform_compile hcompile, h.held]
  simp only [Network.build, intern_of_none (h.find?_eq_none _), create_id, h.nextId]

end Fresh

theorem held_existence : (({} : Ledger).perform (.compile Scenario.existence)).held = [⟨0⟩] := by
  rw [fresh_empty.perform_existence]

theorem mem_held_existence :
    (⟨0⟩ : NodeId) ∈ (({} : Ledger).perform (.compile Scenario.existence)).held := by
  simp [held_existence]

theorem honest_released {calls : List NetworkCall}
    (h : (({} : Ledger).run [.compile Scenario.existence, .release ⟨0⟩]).Honest calls) :
    ({} : Ledger).Honest (.compile Scenario.existence :: .release ⟨0⟩ :: calls) :=
  ⟨trivial, mem_held_existence, h⟩

/-- The first place is empty again. -/
theorem fresh_released :
    (({} : Ledger).run [.compile Scenario.existence, .release ⟨0⟩]).Fresh := by
  have hhonest : ({} : Ledger).Honest [.compile Scenario.existence, .release ⟨0⟩] :=
    honest_released trivial
  have hrun : ({} : Ledger).run [.compile Scenario.existence, .release ⟨0⟩] =
      (({} : Ledger).perform (.compile Scenario.existence)).perform (.release ⟨0⟩) := rfl
  refine ⟨kept_run hhonest (hasRoomFor_of_references_lt hhonest (by decide)), ?_, ?_⟩
  · rw [hrun, fresh_empty.perform_existence]
    rfl
  · have hsound : ({} : Network).Sound := sound_empty
    have hnode := hsound.node?_create_nextId ⟨.fact (.permissionExists ⟨"p1"⟩), []⟩
    have hnext : ({} : Network).nextId = ⟨0⟩ := fresh_empty.nextId
    rw [hnext] at hnode
    rw [hrun, fresh_empty.perform_existence, perform, release_leaf hnode (by simp [newNode]) rfl,
      nextId_discard]

/-! ## Two ways to lose a child -/

/-- The first literal of a comparison is retained until its count has come round, and one of the
references is given back. -/
def wrapped : List NetworkCall :=
  .compile ordered :: (List.replicate Node.countRange (.retain ⟨0⟩) ++ [.release ⟨0⟩])

/-- When the count of the literal has come round, the network is what it was. -/
theorem run_retains_literal :
    (({} : Ledger).perform (.compile ordered)).run
        (List.replicate Node.countRange (.retain ⟨0⟩)) =
      { ({} : Ledger).perform (.compile ordered) with
        held := List.replicate Node.countRange ⟨0⟩ ++
          (({} : Ledger).perform (.compile ordered)).held } := by
  have hnetwork : (({} : Ledger).perform (.compile ordered)).network =
      (({} : Network).build orderedCircuit).network := rfl
  have hwraps : (({} : Ledger).perform (.compile ordered)).network.wrapsAt = Node.countRange := by
    rw [hnetwork]
    exact wrapsAt_build _ _
  rcases fresh_empty.child_build with ⟨node, hnode, -, hcount⟩
  have hround := run_retains_all (hnetwork ▸ hnode) (by rw [hwraps, hcount]; decide)
  rwa [hwraps] at hround

/-- All the references have been handed out. -/
theorem bereft_wrapped : ({} : Ledger).Honest wrapped ∧ (({} : Ledger).run wrapped).Bereft := by
  have hroom : ({} : Ledger).HasRoomFor [.compile ordered] :=
    hasRoomFor_of_references_lt ⟨trivial, trivial⟩ (by decide)
  have hstanding := fresh_empty.standing hroom.1
  have hrun : ∀ n, ({} : Ledger).run
      (.compile ordered :: (List.replicate n (.retain ⟨0⟩) ++ [.release ⟨0⟩])) =
        ((({} : Ledger).perform (.compile ordered)).run
          (List.replicate n (.retain ⟨0⟩))).perform (.release ⟨0⟩) := by
    intro n
    simp only [run, List.foldl_cons, List.foldl_append, List.foldl_nil]
  constructor
  · refine ⟨trivial, honest_retains ?_⟩
    rw [run_retains_literal]
    exact ⟨List.mem_append_left _ (List.mem_replicate.2 ⟨by decide, rfl⟩), trivial⟩
  · rw [wrapped, hrun, run_retains_literal]
    have hroot : (({} : Ledger).network.build orderedCircuit).root ∈
        List.replicate Node.countRange ⟨0⟩ ++ (({} : Ledger).perform (.compile ordered)).held :=
      List.mem_append_right _ List.mem_cons_self
    exact Standing.bereft hstanding hroot

/-- A missing node is retained, a comparison is built over its place, and a reference to it is given
back. -/
theorem Fresh.bereft {l : Ledger} (h : l.Fresh) (hroom : l.HasRoom (.compile ordered)) :
    l.Booked [.retain ⟨0⟩, .compile ordered, .release ⟨0⟩] ∧
      (l.bookAll [.retain ⟨0⟩, .compile ordered, .release ⟨0⟩]).Bereft := by
  have hstanding := h.standing hroom
  have hretain : l.book (.retain ⟨0⟩) = { l with held := [⟨0⟩] } := by
    simp only [book, retain_of_not_live (h.not_live ⟨0⟩), h.held]
  have hcompile := perform_ordered { l with held := [⟨0⟩] }
  dsimp only at hcompile
  generalize l.network.build orderedCircuit = built at hstanding hcompile
  constructor
  · refine ⟨trivial, trivial, ?_, trivial⟩
    rw [hretain, book_compile, hcompile]
    exact List.mem_cons_of_mem _ List.mem_cons_self
  · simp only [bookAll, List.foldl_cons, List.foldl_nil, hretain, book_compile, book_release,
      hcompile]
    exact Standing.bereft hstanding List.mem_cons_self

/-- A node that is gone is retained, its place goes to the first literal of a comparison, and a
reference to the node is given back. -/
def stale : List NetworkCall :=
  [.compile Scenario.existence, .release ⟨0⟩, .retain ⟨0⟩, .compile ordered, .release ⟨0⟩]

/-- By the books, all the references have been handed out. -/
theorem bereft_stale : ({} : Ledger).Booked stale ∧ (({} : Ledger).bookAll stale).Bereft := by
  have hhonest : ({} : Ledger).Honest
      [.compile Scenario.existence, .release ⟨0⟩, .compile ordered] :=
    honest_released ⟨trivial, trivial⟩
  have hroom := hasRoomFor_of_references_lt hhonest (by decide)
  rcases fresh_released.bereft hroom.2.2.1 with ⟨hbooked, hbereft⟩
  refine ⟨⟨trivial, mem_held_existence, hbooked⟩, ?_⟩
  have hall : ({} : Ledger).bookAll stale = (({} : Ledger).run
      [.compile Scenario.existence, .release ⟨0⟩]).bookAll
        [.retain ⟨0⟩, .compile ordered, .release ⟨0⟩] := rfl
  rw [hall]
  exact hbereft

end Ledger
end Mandate
