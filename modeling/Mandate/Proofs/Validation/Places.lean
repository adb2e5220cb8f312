import Mathlib.Algebra.Ring.Nat
import Mathlib.Data.List.Flatten
import Mathlib.Data.List.Nodup
import Mandate.Expr.Encoding
import Mandate.Validation

/-!
# Places in a constraint

A constraint has its permission and its body, every node has its fields, and the names of fields
lead from the constraint to every place in it.  The places are listed in pre-order: a place before
its fields, and everything in a field before everything in the next one.

Main results:

- Definitions `Place`, `Place.follow?`: places, and the place to which a path leads.
- Definition `Place.preorder`: all places in pre-order, with the paths that lead to them.
- Theorem `Place.mem_preorder_iff`: the list has exactly the places to which paths lead.
- Theorem `Place.nodup_preorder`: it has every path once.
- Theorem `Place.nodesIn_preorder`: it has as many nodes as the place.
- Theorem `Place.follow?_toJson`: the paths lead to the same places in the document.
- Theorem `Path.ofDotted_display`: the dotted text of a path has no other reading.
-/

namespace Mandate

/-- Something that stands in a constraint. -/
inductive Place
  | constraint (c : Constraint)
  | formula (f : Formula)
  | predicate (p : Predicate)
  | term (t : Term)
  /-- A term that is the period of a rate limit. -/
  | period (t : Term)
  /-- The name of a permission or of an account. -/
  | name (text : String)
  deriving DecidableEq

/-! ## Fields -/

/-- The fields of a term, in order. -/
def Term.fields : Term → List (String × Place)
  | .literal _ | .blockNumber => []
  | .stakeOf a => [("account", .name a.text)]
  | .add l r | .sub l r => [("left", .term l), ("right", .term r)]
  | .weightSet s t | .weightPower s t => [("from", .name s.text), ("to", .name t.text)]

/-- The fields of a predicate, in order. -/
def Predicate.fields : Predicate → List (String × Place)
  | .maxDelegationDepth d => [("depth", .term d)]
  | .permissionExists p | .permissionEnabled p => [("pid", .name p.text)]
  | .rateLimit m p => [("maxOperations", .term m), ("period", .period p)]
  | .inactiveUnlessRedelegated => []

/-- The fields of a formula, in order. -/
def Formula.fields : Formula → List (String × Place)
  | .not f => [("body", .formula f)]
  | .and l r | .or l r => [("left", .formula l), ("right", .formula r)]
  | .compare _ l r => [("left", .term l), ("right", .term r)]
  | .base p => [("body", .predicate p)]

namespace Place

/-- The fields of a place, in order. -/
def fields : Place → List (String × Place)
  | .constraint c => [("permId", .name c.permission.text), ("body", .formula c.body)]
  | .formula f => f.fields
  | .predicate p => p.fields
  | .term t | .period t => t.fields
  | .name _ => []

/-- Formulas, predicates and terms are nodes; a constraint as a whole and a name are none. -/
def isNode : Place → Bool
  | .constraint _ | .name _ => false
  | _ => true

/-- The term at a place, a period among them. -/
def term? : Place → Option Term
  | .term t | .period t => some t
  | _ => none

/-- The number of nodes in a place, itself among them. -/
def nodeCount : Place → Nat
  | .constraint c => c.body.nodeCount
  | .formula f => f.nodeCount
  | .predicate p => p.nodeCount
  | .term t | .period t => t.nodeCount
  | .name _ => 0

/-- The nodes of a place are the place itself, if it is one, and the nodes in its fields. -/
theorem nodeCount_eq (place : Place) : place.nodeCount =
    (if place.isNode then 1 else 0) + (place.fields.map fun x => x.2.nodeCount).sum := by
  rcases place with c | f | p | t | t | s
  · simp [fields, nodeCount, isNode]
  · cases f <;> simp [fields, Formula.fields, nodeCount, isNode, Formula.nodeCount, Nat.add_assoc]
  · cases p <;>
      simp [fields, Predicate.fields, nodeCount, isNode, Predicate.nodeCount, Nat.add_assoc]
  · cases t <;> simp [fields, Term.fields, nodeCount, isNode, Term.nodeCount, Nat.add_assoc]
  · cases t <;> simp [fields, Term.fields, nodeCount, isNode, Term.nodeCount, Nat.add_assoc]
  · simp [fields, nodeCount, isNode]

/-- The height of the tree of nodes in a place; it is nothing where no node is. -/
def height : Place → Nat
  | .constraint c => c.body.depth
  | .formula f => f.depth
  | .predicate p => p.depth
  | .term t | .period t => t.depth
  | .name _ => 0

/-- A node is one higher than the highest of its fields. -/
theorem height_le_iff {place : Place} (h : place.isNode = true) (n : Nat) :
    place.height ≤ n + 1 ↔ ∀ x ∈ place.fields, x.2.height ≤ n := by
  rcases place with c | f | p | t | t | s
  · cases h
  · cases f <;> simp [fields, Formula.fields, height, Formula.depth] <;> omega
  · cases p <;> simp [fields, Predicate.fields, height, Predicate.depth] <;> omega
  · cases t <;> simp [fields, Term.fields, height, Term.depth] <;> omega
  · cases t <;> simp [fields, Term.fields, height, Term.depth] <;> omega
  · cases h

theorem height_pos {place : Place} (h : place.isNode = true) : 0 < place.height := by
  rcases place with c | f | p | t | t | s
  · cases h
  · cases f <;> simp only [height, Formula.depth] <;> omega
  · cases p <;> simp only [height, Predicate.depth] <;> omega
  · cases t <;> simp only [height, Term.depth] <;> omega
  · cases t <;> simp only [height, Term.depth] <;> omega
  · cases h

/-- The place to which the names of fields lead. -/
def follow? (place : Place) : Path → Option Place
  | [] => some place
  | field :: rest => (place.fields.lookup field).bind fun part => part.follow? rest

theorem follow?_nil (place : Place) : place.follow? [] = some place :=
  rfl

/-- Different fields have different names. -/
theorem nodup_fields (place : Place) : (place.fields.map Prod.fst).Nodup := by
  rcases place with c | f | p | t | t | s
  · simp [fields]
  · cases f <;> simp [fields, Formula.fields]
  · cases p <;> simp [fields, Predicate.fields]
  · cases t <;> simp [fields, Term.fields]
  · cases t <;> simp [fields, Term.fields]
  · simp [fields]

/-- No constraint stands in a field. -/
theorem ne_constraint_of_mem_fields {place : Place} {c : Constraint} :
    ∀ x ∈ place.fields, x.2 ≠ .constraint c := by
  rcases place with c | f | p | t | t | s
  · simp [fields]
  · cases f <;> simp [fields, Formula.fields]
  · cases p <;> simp [fields, Predicate.fields]
  · cases t <;> simp [fields, Term.fields]
  · cases t <;> simp [fields, Term.fields]
  · simp [fields]

/-- A name finds what stands in its field. -/
theorem lookup_fields_iff {place part : Place} {field : String} :
    place.fields.lookup field = some part ↔ (field, part) ∈ place.fields := by
  have hnodup : (place.fields.map Prod.fst).Nodup := place.nodup_fields
  generalize place.fields = fields at hnodup
  induction fields with
  | nil => simp
  | cons first fields ih =>
    rcases first with ⟨name, child⟩
    rw [List.map_cons, List.nodup_cons] at hnodup
    by_cases hfield : field = name
    · have hothers : (name, part) ∉ fields := fun h =>
        hnodup.1 (List.mem_map.2 ⟨_, h, rfl⟩)
      simp [hfield, hothers, eq_comm]
    · have hne : (field == name) = false := by simpa using hfield
      simp [List.lookup_cons, hne, hfield, ih hnodup.2]

theorem follow?_cons_iff {place part : Place} {field : String} {rest : Path} :
    place.follow? (field :: rest) = some part ↔
      ∃ child, (field, child) ∈ place.fields ∧ child.follow? rest = some part := by
  simp [follow?, Option.bind_eq_some_iff, lookup_fields_iff]

theorem follow?_append (place : Place) (path rest : Path) :
    place.follow? (path ++ rest) = (place.follow? path).bind fun part => part.follow? rest := by
  induction path generalizing place with
  | nil => rfl
  | cons field path ih =>
    rw [List.cons_append, follow?, follow?]
    cases place.fields.lookup field with
    | none => rfl
    | some part => exact ih part

/-- One more name leads to the place in a field. -/
theorem follow?_concat_iff {place part : Place} {path : Path} {field : String} :
    place.follow? (path ++ [field]) = some part ↔
      ∃ parent, place.follow? path = some parent ∧ (field, part) ∈ parent.fields := by
  simp only [follow?_append, Option.bind_eq_some_iff, follow?_cons_iff, follow?_nil,
    Option.some.injEq, exists_eq_right]

/-! ## Pre-order -/

/-- A measure that falls from a place to its fields. -/
def size : Place → Nat
  | .constraint c => c.body.nodeCount + 1
  | place => place.nodeCount

theorem size_lt_of_mem_fields {place : Place} :
    ∀ x ∈ place.fields, x.2.size < place.size := by
  rcases place with c | f | p | t | t | s
  · simp [fields, size, nodeCount]
  · cases f <;> simp [fields, Formula.fields, size, nodeCount, Formula.nodeCount] <;> omega
  · cases p <;> simp [fields, Predicate.fields, size, nodeCount, Predicate.nodeCount]
    omega
  · cases t <;> simp [fields, Term.fields, size, nodeCount, Term.nodeCount] <;> omega
  · cases t <;> simp [fields, Term.fields, size, nodeCount, Term.nodeCount] <;> omega
  · simp [fields]

/-- The place itself and everything in it, in pre-order: a place stands before its fields, and what
is in a field before what is in the next one.  Each has its path, the given one being that of the
place itself. -/
def preorder (path : Path) (place : Place) : List (Path × Place) :=
  (path, place) :: place.fields.attach.flatMap fun x => x.1.2.preorder (path ++ [x.1.1])
termination_by place.size
decreasing_by exact size_lt_of_mem_fields x.1 x.2

/-- The places in the fields of a place, in pre-order. -/
def inside (path : Path) (place : Place) : List (Path × Place) :=
  place.fields.flatMap fun x => x.2.preorder (path ++ [x.1])

theorem preorder_eq (path : Path) (place : Place) :
    place.preorder path = (path, place) :: place.inside path := by
  rw [preorder, inside]
  congr 1
  rw [List.flatMap_subtype (g := fun x => x.2.preorder (path ++ [x.1])) fun _ _ => rfl,
    List.unattach_attach]

theorem mem_inside_iff {path : Path} {place : Place} {y : Path × Place} :
    y ∈ place.inside path ↔ ∃ x ∈ place.fields, y ∈ x.2.preorder (path ++ [x.1]) :=
  List.mem_flatMap

/-- What holds of a place as soon as it holds of its fields holds of all places. -/
@[elab_as_elim]
theorem fields_induction {motive : Place → Prop}
    (step : ∀ place : Place, (∀ x ∈ place.fields, motive x.2) → motive place) (place : Place) :
    motive place :=
  step place fun x _ => fields_induction step x.2
termination_by place.size
decreasing_by exact size_lt_of_mem_fields x ‹_›

/-- The list has the places to which paths lead, under these paths. -/
theorem mem_preorder_iff {base path : Path} {place part : Place} :
    (path, part) ∈ place.preorder base ↔
      ∃ rest, path = base ++ rest ∧ place.follow? rest = some part := by
  induction place using fields_induction generalizing base path with
  | step place ih =>
    rw [preorder_eq, List.mem_cons, mem_inside_iff]
    constructor
    · intro h
      rcases h with hself | ⟨x, hx, hpart⟩
      · rcases Prod.mk.inj hself with ⟨rfl, rfl⟩
        exact ⟨[], by simp, rfl⟩
      · rcases (ih x hx).1 hpart with ⟨rest, hpath, hrest⟩
        exact ⟨x.1 :: rest, by simp [hpath], follow?_cons_iff.2 ⟨x.2, hx, hrest⟩⟩
    · intro h
      rcases h with ⟨_ | ⟨field, rest⟩, rfl, hrest⟩
      · rw [follow?, Option.some.injEq] at hrest
        exact Or.inl (by simp [hrest])
      · rcases follow?_cons_iff.1 hrest with ⟨child, hchild, hrest⟩
        exact Or.inr ⟨(field, child), hchild, (ih _ hchild).2 ⟨rest, by simp, hrest⟩⟩

/-- No path is there twice. -/
theorem nodup_preorder (base : Path) (place : Place) :
    ((place.preorder base).map Prod.fst).Nodup := by
  induction place using fields_induction generalizing base with
  | step place ih =>
    rw [preorder_eq, inside, List.map_cons, List.map_flatMap, List.nodup_cons, List.nodup_flatMap]
    refine ⟨?_, fun x hx => ih x hx _, ?_⟩
    · intro h
      rcases List.mem_flatMap.1 h with ⟨x, hx, hbase⟩
      rcases List.mem_map.1 hbase with ⟨⟨path, part⟩, hpart, hpath⟩
      rcases mem_preorder_iff.1 hpart with ⟨rest, rfl, -⟩
      simp at hpath
    · refine (List.pairwise_map.1 place.nodup_fields).imp ?_
      intro x y hne path hx hy
      rcases List.mem_map.1 hx with ⟨⟨path, part⟩, hpart, rfl⟩
      rcases List.mem_map.1 hy with ⟨⟨path', other⟩, hother, heq⟩
      rcases mem_preorder_iff.1 hpart with ⟨rest, rfl, -⟩
      rcases mem_preorder_iff.1 hother with ⟨rest', rfl, -⟩
      simp only [List.append_assoc, List.singleton_append, List.append_cancel_left_eq,
        List.cons.injEq] at heq
      exact hne heq.1.symm

/-- The places in a part stand in one row. -/
theorem preorder_sublist {place part : Place} {base rest : Path}
    (h : place.follow? rest = some part) :
    (part.preorder (base ++ rest)).Sublist (place.preorder base) := by
  induction rest generalizing place base with
  | nil =>
    rw [follow?, Option.some.injEq] at h
    rw [h, List.append_nil]
  | cons field rest ih =>
    rcases follow?_cons_iff.1 h with ⟨child, hchild, hrest⟩
    have hpart : (part.preorder (base ++ [field] ++ rest)).Sublist
        (child.preorder (base ++ [field])) := ih hrest
    have hfield : (child.preorder (base ++ [field])).Sublist (place.inside base) :=
      List.sublist_flatten_of_mem (List.mem_map.2 ⟨(field, child), hchild, rfl⟩)
    rw [preorder_eq base place]
    rw [List.append_assoc, List.singleton_append] at hpart
    exact (hpart.trans hfield).cons _

/-! ## Counting nodes -/

/-- The number of nodes among places. -/
def nodesIn (places : List (Path × Place)) : Nat :=
  places.countP fun x => x.2.isNode

theorem nodesIn_nil : nodesIn [] = 0 :=
  rfl

theorem nodesIn_cons (x : Path × Place) (places : List (Path × Place)) :
    nodesIn (x :: places) = (if x.2.isNode then 1 else 0) + nodesIn places := by
  simp [nodesIn, List.countP_cons, Nat.add_comm]

theorem nodesIn_append (places more : List (Path × Place)) :
    nodesIn (places ++ more) = nodesIn places + nodesIn more :=
  List.countP_append

/-- Behind any smaller number of nodes comes a node. -/
theorem exists_split_of_lt_nodesIn {places : List (Path × Place)} {n : Nat}
    (h : n < nodesIn places) :
    ∃ before x after, places = before ++ x :: after ∧ x.2.isNode = true ∧ nodesIn before = n := by
  induction places generalizing n with
  | nil => exact absurd h (Nat.not_lt_zero n)
  | cons x places ih =>
    rw [nodesIn_cons] at h
    by_cases hnode : x.2.isNode = true
    · rw [if_pos hnode] at h
      cases n with
      | zero => exact ⟨[], x, places, rfl, hnode, rfl⟩
      | succ n =>
        rcases ih (n := n) (by omega) with ⟨before, y, after, hplaces, hy, hbefore⟩
        refine ⟨x :: before, y, after, by rw [hplaces, List.cons_append], hy, ?_⟩
        rw [nodesIn_cons, if_pos hnode, hbefore, Nat.add_comm]
    · rw [if_neg hnode, Nat.zero_add] at h
      rcases ih h with ⟨before, y, after, hplaces, hy, hbefore⟩
      refine ⟨x :: before, y, after, by rw [hplaces, List.cons_append], hy, ?_⟩
      rw [nodesIn_cons, if_neg hnode, hbefore, Nat.zero_add]

theorem preorder_name (path : Path) (s : String) :
    (name s).preorder path = [(path, name s)] := by
  rw [preorder_eq]
  rfl

/-- A place has as many nodes in pre-order as its number of nodes says. -/
theorem nodesIn_preorder (path : Path) (place : Place) :
    nodesIn (place.preorder path) = place.nodeCount := by
  induction place using fields_induction generalizing path with
  | step place ih =>
    have hfields : (place.fields.map fun x => nodesIn (x.2.preorder (path ++ [x.1]))) =
        place.fields.map fun x => x.2.nodeCount :=
      List.map_congr_left fun x hx => ih x hx _
    rw [preorder_eq, nodesIn_cons, nodeCount_eq, ← hfields, inside, nodesIn, List.countP_flatMap]
    rfl

end Place

/-! ## Constraints -/

namespace Constraint

/-- The place of a constraint to which a path leads. -/
def follow? (c : Constraint) (path : Path) : Option Place :=
  (Place.constraint c).follow? path

/-- All places of a constraint in pre-order, with their paths: the permission, then the nodes of the
body and the names in them. -/
def places (c : Constraint) : List (Path × Place) :=
  (Place.constraint c).preorder []

theorem mem_places_iff {c : Constraint} {path : Path} {place : Place} :
    (path, place) ∈ c.places ↔ c.follow? path = some place := by
  simp [places, Place.mem_preorder_iff, follow?]

/-- What stands in the list is where its path leads. -/
theorem follow?_of_split {c : Constraint} {path : Path} {place : Place}
    {before after : List (Path × Place)} (h : c.places = before ++ (path, place) :: after) :
    c.follow? path = some place := by
  rw [← mem_places_iff, h]
  exact List.mem_append_right before List.mem_cons_self

theorem places_eq (c : Constraint) :
    c.places = ([], .constraint c) :: (["permId"], .name c.permission.text) ::
      (Place.formula c.body).preorder ["body"] := by
  rw [places, Place.preorder_eq]
  simp [Place.inside, Place.fields, Place.preorder_name]

/-- The places of a constraint are nodes of its body, apart from names and the constraint itself. -/
theorem nodesIn_places (c : Constraint) : Place.nodesIn c.places = c.body.nodeCount := by
  rw [places, Place.nodesIn_preorder, Place.nodeCount]

/-- The one path comes before the other one in pre-order. -/
def Earlier (c : Constraint) (path other : Path) : Prop :=
  [path, other].Sublist (c.places.map Prod.fst)

theorem Earlier.asymm {c : Constraint} {path other : Path} (h : c.Earlier path other) :
    ¬ c.Earlier other path := by
  have hnodup : (c.places.map Prod.fst).Nodup := Place.nodup_preorder [] _
  unfold Earlier at h ⊢
  generalize c.places.map Prod.fst = paths at h hnodup
  induction paths with
  | nil => simp at h
  | cons first paths ih =>
    -- the first one is in a pair only as its first member, as it is not there again
    rw [List.nodup_cons] at hnodup
    grind

/-- What stands before a place comes before it. -/
theorem earlier_of_split {c : Constraint} {before after : List (Path × Place)}
    {x y : Path × Place} (hplaces : c.places = before ++ y :: after) (hx : x ∈ before) :
    c.Earlier x.1 y.1 := by
  have hpair : [x, y].Sublist (before ++ y :: after) :=
    List.Sublist.append (List.singleton_sublist.2 hx)
      (List.singleton_sublist.2 List.mem_cons_self)
  rw [← hplaces] at hpair
  exact hpair.map Prod.fst

/-- A place comes before everything in it. -/
theorem earlier_of_extends {c : Constraint} {path rest : Path} {field : String} {part : Place}
    (h : c.follow? (path ++ field :: rest) = some part) :
    c.Earlier path (path ++ field :: rest) := by
  rw [follow?, Place.follow?_append] at h
  rcases Option.bind_eq_some_iff.1 h with ⟨parent, hparent, hpart⟩
  have hinside : (parent.preorder ([] ++ path)).Sublist c.places := Place.preorder_sublist hparent
  have hmem : (path ++ field :: rest, part) ∈ parent.preorder path :=
    Place.mem_preorder_iff.2 ⟨_, rfl, hpart⟩
  rw [List.nil_append, Place.preorder_eq] at hinside
  rw [Place.preorder_eq, List.mem_cons] at hmem
  have hfields : (path ++ field :: rest, part) ∈ parent.inside path :=
    hmem.resolve_left (by simp)
  have hpair : [(path, parent), (path ++ field :: rest, part)].Sublist c.places :=
    ((List.singleton_sublist.2 hfields).cons_cons _).trans hinside
  exact hpair.map Prod.fst

end Constraint

/-! ## Documents -/

namespace Json

/-- What stands in a document under the names of members. -/
def follow? : Json → Path → Option Json
  | j, [] => some j
  | .object members, field :: rest => (members.lookup field).bind fun j => j.follow? rest
  | _, _ :: _ => none

end Json

namespace Place

/-- The document of a place. -/
def toJson : Place → Json
  | .constraint c => c.toJson
  | .formula f => f.toJson
  | .predicate p => p.toJson
  | .term t | .period t => t.toJson
  | .name s => .text s

/-- Every field is a member of the document. -/
theorem follow?_toJson_field {place : Place} (rest : Path) :
    ∀ x ∈ place.fields, place.toJson.follow? (x.1 :: rest) = x.2.toJson.follow? rest := by
  rcases place with c | f | p | t | t | s
  · simp [fields, toJson, Constraint.toJson, Json.follow?, List.lookup_cons]
  · cases f <;>
      simp [fields, Formula.fields, toJson, Formula.toJson, taggedJson, Json.follow?,
        List.lookup_cons]
  · cases p <;>
      simp [fields, Predicate.fields, toJson, Predicate.toJson, taggedJson, Json.follow?,
        List.lookup_cons]
  · cases t <;>
      simp [fields, Term.fields, toJson, Term.toJson, taggedJson, Json.follow?, List.lookup_cons]
  · cases t <;>
      simp [fields, Term.fields, toJson, Term.toJson, taggedJson, Json.follow?, List.lookup_cons]
  · simp [fields]

/-- A path leads to the same place in the document. -/
theorem follow?_toJson {place part : Place} {path : Path} (h : place.follow? path = some part) :
    place.toJson.follow? path = some part.toJson := by
  induction path generalizing place with
  | nil =>
    rw [follow?_nil, Option.some.injEq] at h
    rw [h, Json.follow?]
  | cons field path ih =>
    rcases follow?_cons_iff.1 h with ⟨child, hchild, hpath⟩
    exact (follow?_toJson_field path _ hchild).trans (ih hpath)

end Place

/-! ## Dotted paths -/

/-- The names between the points of a text. -/
def Path.ofDotted (text : String) : Path :=
  (text.toList.splitOn '.').map String.ofList

/-- A path whose names have no point is what its dotted text says. -/
theorem Path.ofDotted_display {path : Path} (hpath : path ≠ [])
    (hnames : ∀ field ∈ path, '.' ∉ field.toList) : Path.ofDotted path.display = path := by
  have hsplit : List.splitOn '.' (List.intercalate ['.'] (path.map String.toList)) =
      path.map String.toList := by
    refine List.splitOn_intercalate '.' ?_ (by simpa using hpath)
    intro cs hcs
    rcases List.mem_map.1 hcs with ⟨field, hfield, rfl⟩
    exact hnames field hfield
  have hpoint : ".".toList = ['.'] := rfl
  rw [Path.ofDotted, Path.display, String.toList_intercalate, hpoint, hsplit, List.map_map]
  simp

namespace Place

/-- No field has a point in its name. -/
theorem point_not_mem_of_mem_fields {place : Place} :
    ∀ x ∈ place.fields, '.' ∉ x.1.toList := by
  rcases place with c | f | p | t | t | s
  · simp [fields]
  · cases f <;> simp [fields, Formula.fields]
  · cases p <;> simp [fields, Predicate.fields]
  · cases t <;> simp [fields, Term.fields]
  · cases t <;> simp [fields, Term.fields]
  · simp [fields]

theorem point_not_mem_of_follow? {place part : Place} {path : Path}
    (h : place.follow? path = some part) : ∀ field ∈ path, '.' ∉ field.toList := by
  induction path generalizing place with
  | nil => simp
  | cons field path ih =>
    rcases follow?_cons_iff.1 h with ⟨child, hchild, hpath⟩
    exact List.forall_mem_cons.2 ⟨point_not_mem_of_mem_fields _ hchild, ih hpath⟩

end Place
end Mandate
