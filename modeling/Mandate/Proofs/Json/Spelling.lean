import Mandate.Proofs.Json.Decoding
import Mandate.Proofs.Json.Reading

/-!
# Records in other spellings

The members of an object may stand in any order and among foreign ones, and a tagged value may be
written as the list of its tag and its fields.  The fields are read from all of these alike.

Main results:

- Definitions `Scatters`, `Tagged`: the spellings of a record and of a tagged value.
- Theorem `Scatters.filter_eq`: each field is found once by its name.
- Theorem `splitTag_of_tagged`: the tag and the content of a tagged value, however it is spelled.
- Theorems `Content.Offers.zero`, `Content.Offers.one`, `Content.Offers.two`,
  `Content.Offers.three`: reading a record from such content.
- Theorems `Tagged.nesting_lt`, `Tagged.clean`: depth and well-formedness of a spelling.
-/

namespace Mandate

/-! ## Documents without flaws -/

namespace Json

/-- The document can be read as it is written, and denotes something throughout. -/
structure Clean (j : Json) : Prop where
  exact : j.Exact
  readable : j.readable = true

theorem membersExact_iff {members : List (String × Json)} :
    MembersExact members ↔ ∀ m ∈ members, m.2.Exact := by
  induction members with
  | nil => simp [MembersExact]
  | cons member members ih => simp [MembersExact, ih]

theorem itemsExact_iff {items : List Json} : ItemsExact items ↔ ∀ j ∈ items, j.Exact := by
  induction items with
  | nil => simp [ItemsExact]
  | cons first items ih => simp [ItemsExact, ih]

theorem membersReadable_iff {members : List (String × Json)} :
    membersReadable members = true ↔ ∀ m ∈ members, m.2.readable = true := by
  induction members with
  | nil => simp [membersReadable]
  | cons member members ih => simp [membersReadable, ih]

theorem itemsReadable_iff {items : List Json} :
    itemsReadable items = true ↔ ∀ j ∈ items, j.readable = true := by
  induction items with
  | nil => simp [itemsReadable]
  | cons first items ih => simp [itemsReadable, ih]

theorem clean_object {members : List (String × Json)} (h : ∀ m ∈ members, m.2.Clean) :
    (Json.object members).Clean where
  exact := membersExact_iff.2 fun m hm => (h m hm).exact
  readable := membersReadable_iff.2 fun m hm => (h m hm).readable

theorem clean_array {items : List Json} (h : ∀ j ∈ items, j.Clean) :
    (Json.array items).Clean where
  exact := itemsExact_iff.2 fun j hj => (h j hj).exact
  readable := itemsReadable_iff.2 fun j hj => (h j hj).readable

theorem clean_text (s : String) : (Json.text s).Clean :=
  ⟨trivial, rfl⟩

theorem clean_null : Json.null.Clean :=
  ⟨trivial, rfl⟩

end Json

namespace Decode

/-! ## Spellings -/

/-- The members of an object are the given fields, in any order, among foreign members that are
`null`. -/
def Scatters (fields members : List (String × Json)) : Prop :=
  ∃ extras, members.Perm (fields ++ extras) ∧
    ∀ m ∈ extras, m.2 = .null ∧ m.1 ∉ fields.map Prod.fst

/-- The document is a tagged value with the given fields: an object, in which the tag may stand
anywhere, or the list of the tag and the fields in order. -/
inductive Tagged (tag : String) (fields : List (String × Json)) : Json → Prop
  | object {members : List (String × Json)}
      (h : Scatters ((tagName, .text tag) :: fields) members) : Tagged tag fields (.object members)
  | list : Tagged tag fields (.array (.text tag :: fields.map Prod.snd))

/-- The content has every field once, among members with other names or in the order of fields. -/
inductive Content.Offers (fields : List (String × Json)) : Content → Prop
  | members {ms : List (String × Json)} (h : ∀ f ∈ fields, ms.filter (·.1 = f.1) = [f]) :
      Offers fields (.members ms)
  | items : Offers fields (.items (fields.map Prod.snd))

/-- The fields alone, in their order. -/
theorem Scatters.refl (fields : List (String × Json)) : Scatters fields fields :=
  ⟨[], by simp, by simp⟩

/-- The object that is written for a tagged value is one of its spellings. -/
theorem tagged_object (tag : String) (fields : List (String × Json)) :
    Tagged tag fields (.object ((tagName, .text tag) :: fields)) :=
  .object (.refl _)

theorem filter_name_of_nodup {fields : List (String × Json)} (hnodup : (fields.map Prod.fst).Nodup)
    {f : String × Json} (hf : f ∈ fields) : fields.filter (·.1 = f.1) = [f] := by
  induction fields with
  | nil => cases hf
  | cons first fields ih =>
    rw [List.map_cons, List.nodup_cons] at hnodup
    rcases List.mem_cons.1 hf with rfl | hrest
    · have hnone : fields.filter (·.1 = f.1) = [] := by
        rw [List.filter_eq_nil_iff]
        intro m hm hname
        exact hnodup.1 (of_decide_eq_true hname ▸ List.mem_map_of_mem hm)
      rw [List.filter_cons_of_pos (by simp), hnone]
    · have hname : first.1 ≠ f.1 := by
        rintro heq
        exact hnodup.1 (heq ▸ List.mem_map_of_mem hrest)
      rw [List.filter_cons_of_neg (by simpa using hname), ih hnodup.2 hrest]

/-- However fields are scattered, each is found once by its name. -/
theorem Scatters.filter_eq {fields members : List (String × Json)} (h : Scatters fields members)
    (hnodup : (fields.map Prod.fst).Nodup) {f : String × Json} (hf : f ∈ fields) :
    members.filter (·.1 = f.1) = [f] := by
  rcases h with ⟨extras, hperm, hextras⟩
  have hforeign : extras.filter (·.1 = f.1) = [] := by
    rw [List.filter_eq_nil_iff]
    intro m hm hname
    exact (hextras m hm).2 (of_decide_eq_true hname ▸ List.mem_map_of_mem hf)
  have hfound := hperm.filter (·.1 = f.1)
  rw [List.filter_append, filter_name_of_nodup hnodup hf, hforeign, List.append_nil] at hfound
  exact List.perm_singleton.1 hfound

/-- Every member is one of the fields, or `null`. -/
theorem Scatters.of_mem {fields members : List (String × Json)} (h : Scatters fields members)
    {m : String × Json} (hm : m ∈ members) : m ∈ fields ∨ m.2 = .null := by
  rcases h with ⟨extras, hperm, hextras⟩
  exact (List.mem_append.1 (hperm.mem_iff.1 hm)).imp_right fun hextra => (hextras m hextra).1

theorem Scatters.mem {fields members : List (String × Json)} (h : Scatters fields members)
    {f : String × Json} (hf : f ∈ fields) : f ∈ members := by
  rcases h with ⟨extras, hperm, -⟩
  exact hperm.mem_iff.2 (List.mem_append_left _ hf)

theorem Scatters.clean {fields members : List (String × Json)} (h : Scatters fields members)
    (hfields : ∀ f ∈ fields, f.2.Clean) : (Json.object members).Clean := by
  refine Json.clean_object fun m hm => ?_
  rcases h.of_mem hm with hfield | hnull
  · exact hfields m hfield
  · exact hnull ▸ Json.clean_null

theorem Tagged.clean {tag : String} {fields : List (String × Json)} {j : Json}
    (h : Tagged tag fields j) (hfields : ∀ f ∈ fields, f.2.Clean) : j.Clean := by
  cases h with
  | object hscatters =>
    refine hscatters.clean fun f hf => ?_
    rcases List.mem_cons.1 hf with rfl | hrest
    · exact Json.clean_text tag
    · exact hfields f hrest
  | list =>
    refine Json.clean_array fun k hk => ?_
    rcases List.mem_cons.1 hk with rfl | hrest
    · exact Json.clean_text tag
    · rcases List.mem_map.1 hrest with ⟨f, hf, rfl⟩
      exact hfields f hf

/-- A field is less deep than the tagged value. -/
theorem Tagged.nesting_lt {tag : String} {fields : List (String × Json)} {j : Json}
    (h : Tagged tag fields j) {f : String × Json} (hf : f ∈ fields) :
    f.2.nesting < j.nesting := by
  cases h with
  | object hscatters =>
    have hmem := hscatters.mem (List.mem_cons_of_mem _ hf)
    exact Nat.lt_succ_of_le (nesting_le_of_mem_members (List.mem_map_of_mem hmem))
  | list =>
    have hmem : f.2 ∈ fields.map Prod.snd := List.mem_map_of_mem hf
    exact Nat.lt_succ_of_le (nesting_le_of_mem_items (List.mem_cons_of_mem _ hmem))

/-! ## Finding the tag -/

/-- The tag is found wherever it stands, and everything else is content. -/
theorem splitMembers_of_filter {inner : Bool} {tags : List String} {tag : String}
    (htag : tag ∈ tags) {members : List (String × Json)}
    (h : members.filter (·.1 = tagName) = [(tagName, .text tag)]) :
    splitMembers inner tags none members = .ok (tag, members.filter (·.1 ≠ tagName)) := by
  induction members with
  | nil => cases h
  | cons member members ih =>
    rcases member with ⟨name, j⟩
    rw [splitMembers_cons]
    by_cases hname : name = tagName
    · rw [List.filter_cons_of_pos (by simpa using hname), List.cons.injEq, Prod.mk.injEq,
        List.filter_eq_nil_iff] at h
      rcases h with ⟨⟨-, rfl⟩, hothers⟩
      have hrest : ∀ m ∈ members, m.1 ≠ tagName := fun m hm => by simpa using hothers m hm
      have hdecode : decodeTag inner tags (.text tag) = .ok tag := if_pos htag
      have hkept : members.filter (·.1 ≠ tagName) = members :=
        List.filter_eq_self.2 fun m hm => decide_eq_true (hrest m hm)
      rw [if_pos hname, hdecode, List.filter_cons_of_neg (by simpa using hname), hkept]
      exact splitMembers_some hrest
    · rw [List.filter_cons_of_neg (by simpa using hname)] at h
      rw [if_neg hname, ih h, List.filter_cons_of_pos (by simpa using hname)]
      rfl

/-- A tagged value is split into its tag and content with all its fields, however it is spelled. -/
theorem splitTag_of_tagged (inner : Bool) (tags : List String) {tag : String}
    {fields : List (String × Json)} {j : Json} (h : Tagged tag fields j) (htag : tag ∈ tags)
    (hnodup : (tagName :: fields.map Prod.fst).Nodup) :
    ∃ content, splitTag inner tags j = .ok (tag, content) ∧ content.Offers fields := by
  cases h with
  | @object members hscatters =>
    have hfound := hscatters.filter_eq hnodup List.mem_cons_self
    refine ⟨.members (members.filter (·.1 ≠ tagName)), ?_, .members fun f hf => ?_⟩
    · rw [splitTag, splitMembers_of_filter htag hfound]
      rfl
    · have hname : f.1 ≠ tagName := by
        rintro heq
        exact (List.nodup_cons.1 hnodup).1 (heq ▸ List.mem_map_of_mem hf)
      have hboth : ∀ m ∈ members, (decide (m.1 = f.1) && decide (m.1 ≠ tagName)) =
          decide (m.1 = f.1) := by
        intro m _
        by_cases heq : m.1 = f.1
        · simp [heq, hname]
        · simp [heq]
      rw [List.filter_filter, List.filter_congr hboth]
      exact hscatters.filter_eq hnodup (List.mem_cons_of_mem _ hf)
  | list =>
    have hdecode : decodeTag inner tags (.text tag) = .ok tag := if_pos htag
    refine ⟨.items (fields.map Prod.snd), ?_, .items⟩
    rw [splitTag, hdecode]
    rfl

/-! ## Reading fields by their names -/

/-- What a member does to the slot of a field. -/
def Field.visit {δ α : Type} (f : Field δ α) (slot : Option α) (name : String) (d : δ) :
    Decoded (Option α) :=
  if name = f.name then f.fill slot d else .ok slot

theorem foldMembers_cons {δ σ : Type} (step : σ → String → δ → Decoded σ) (state : σ)
    (name : String) (d : δ) (rest : List (String × δ)) :
    foldMembers step state ((name, d) :: rest) =
      (step state name d).bind fun next => foldMembers step next rest := by
  rw [foldMembers]
  cases step state name d <;> rfl

section Visits

variable {δ α β γ : Type} {f : Field δ α} {g : Field δ β} {k : Field δ γ}
  {members : List (String × δ)}

/-- Members with other names leave the slot as it is. -/
theorem foldMembers_visit_of_none {slot : Option α} (h : members.filter (·.1 = f.name) = []) :
    foldMembers f.visit slot members = .ok slot := by
  induction members with
  | nil => rfl
  | cons member members ih =>
    rcases member with ⟨name, d⟩
    have hname : name ≠ f.name := by
      rintro rfl
      rw [List.filter_cons_of_pos (by simp)] at h
      cases h
    rw [List.filter_cons_of_neg (by simpa using hname)] at h
    rw [foldMembers_cons, Field.visit, if_neg hname]
    exact ih h

/-- The one member with the name of the field fills the slot. -/
theorem foldMembers_visit {x : δ} {a : α} (h : members.filter (·.1 = f.name) = [(f.name, x)])
    (ha : f.decode x = .ok a) : foldMembers f.visit none members = .ok (some a) := by
  induction members with
  | nil => cases h
  | cons member members ih =>
    rcases member with ⟨name, d⟩
    rw [foldMembers_cons, Field.visit]
    by_cases hname : name = f.name
    · rw [List.filter_cons_of_pos (by simpa using hname), List.cons.injEq, Prod.mk.injEq] at h
      rcases h with ⟨⟨-, rfl⟩, hrest⟩
      rw [if_pos hname, Field.fill, ha]
      exact foldMembers_visit_of_none hrest
    · rw [List.filter_cons_of_neg (by simpa using hname)] at h
      rw [if_neg hname]
      exact ih h

/-- The slots of two fields are filled independently of each other. -/
theorem foldMembers_two {a a' : Option α} {b b' : Option β} (hname : g.name ≠ f.name)
    (hf : foldMembers f.visit a members = .ok a') (hg : foldMembers g.visit b members = .ok b') :
    foldMembers (fun (a, b) name d =>
      if name = f.name then (f.fill a d).map (·, b)
      else if name = g.name then (g.fill b d).map (a, ·)
      else .ok (a, b)) (a, b) members = .ok (a', b') := by
  induction members generalizing a b with
  | nil =>
    cases hf
    cases hg
    rfl
  | cons member members ih =>
    rcases member with ⟨name, d⟩
    rw [foldMembers_cons] at hf hg ⊢
    rcases bind_eq_ok_iff.1 hf with ⟨next, hvisit, hrest⟩
    rcases bind_eq_ok_iff.1 hg with ⟨next', hvisit', hrest'⟩
    unfold Field.visit at hvisit hvisit'
    by_cases hfirst : name = f.name
    · have hother : name ≠ g.name := fun heq => hname (heq.symm.trans hfirst)
      rw [if_pos hfirst] at hvisit
      rw [if_neg hother] at hvisit'
      cases hvisit'
      dsimp only
      rw [if_pos hfirst, hvisit]
      exact ih hrest hrest'
    · rw [if_neg hfirst] at hvisit
      cases hvisit
      dsimp only
      rw [if_neg hfirst]
      by_cases hsecond : name = g.name
      · rw [if_pos hsecond] at hvisit' ⊢
        rw [hvisit']
        exact ih hrest hrest'
      · rw [if_neg hsecond] at hvisit' ⊢
        cases hvisit'
        exact ih hrest hrest'

/-- The slots of three fields are filled independently of each other. -/
theorem foldMembers_three {a a' : Option α} {b b' : Option β} {c c' : Option γ}
    (hfirst : g.name ≠ f.name) (hsecond : k.name ≠ f.name) (hthird : k.name ≠ g.name)
    (hf : foldMembers f.visit a members = .ok a') (hg : foldMembers g.visit b members = .ok b')
    (hk : foldMembers k.visit c members = .ok c') :
    foldMembers (fun (a, b, c) name d =>
      if name = f.name then (f.fill a d).map (·, b, c)
      else if name = g.name then (g.fill b d).map (a, ·, c)
      else if name = k.name then (k.fill c d).map (a, b, ·)
      else .ok (a, b, c)) (a, b, c) members = .ok (a', b', c') := by
  induction members generalizing a b c with
  | nil =>
    cases hf
    cases hg
    cases hk
    rfl
  | cons member members ih =>
    rcases member with ⟨name, d⟩
    rw [foldMembers_cons] at hf hg hk ⊢
    rcases bind_eq_ok_iff.1 hf with ⟨next, hvisit, hrest⟩
    rcases bind_eq_ok_iff.1 hg with ⟨next', hvisit', hrest'⟩
    rcases bind_eq_ok_iff.1 hk with ⟨next'', hvisit'', hrest''⟩
    unfold Field.visit at hvisit hvisit' hvisit''
    by_cases hname : name = f.name
    · have hother : name ≠ g.name := fun heq => hfirst (heq.symm.trans hname)
      have hother' : name ≠ k.name := fun heq => hsecond (heq.symm.trans hname)
      rw [if_pos hname] at hvisit
      rw [if_neg hother] at hvisit'
      rw [if_neg hother'] at hvisit''
      cases hvisit'
      cases hvisit''
      dsimp only
      rw [if_pos hname, hvisit]
      exact ih hrest hrest' hrest''
    · rw [if_neg hname] at hvisit
      cases hvisit
      dsimp only
      rw [if_neg hname]
      by_cases hname' : name = g.name
      · have hother : name ≠ k.name := fun heq => hthird (heq.symm.trans hname')
        rw [if_neg hother] at hvisit''
        cases hvisit''
        rw [if_pos hname'] at hvisit' ⊢
        rw [hvisit']
        exact ih hrest hrest' hrest''
      · rw [if_neg hname'] at hvisit' ⊢
        cases hvisit'
        by_cases hname'' : name = k.name
        · rw [if_pos hname''] at hvisit'' ⊢
          rw [hvisit'']
          exact ih hrest hrest' hrest''
        · rw [if_neg hname''] at hvisit'' ⊢
          cases hvisit''
          exact ih hrest hrest' hrest''

theorem Record.two_ofMembers_of_filter (short : Bool) {x y : δ} {a : α} {b : β}
    (hname : g.name ≠ f.name) (hx : members.filter (·.1 = f.name) = [(f.name, x)])
    (hy : members.filter (·.1 = g.name) = [(g.name, y)]) (hf : f.decode x = .ok a)
    (hg : g.decode y = .ok b) : (Record.two short f g).ofMembers members = .ok (a, b) := by
  have hfold := foldMembers_two hname (foldMembers_visit hx hf) (foldMembers_visit hy hg)
  simp only [Record.two, hfold]
  rfl

end Visits

/-! ## Reading the content of a tagged value -/

section Content

variable {α β γ : Type} {f : Field Json α} {g : Field Json β} {k : Field Json γ} {x y z : Json}
  {a : α} {b : β} {c : γ} {content : Content}

theorem Content.as_map {r : Record Json α} (h : content.as r = .ok a) (g : α → β) :
    content.as (r.map g) = .ok (g a) := by
  cases content with
  | members ms => exact Record.map_ofMembers h g
  | items items =>
    have hitems : r.ofItems items = .ok (a, []) := by
      unfold Content.as Record.ofAllItems at h
      dsimp only at h
      split at h
      · next hread =>
        cases h
        exact hread
      · cases h
      · cases h
    simp only [Content.as, Record.ofAllItems, Record.map, hitems]
    rfl

theorem Content.Offers.zero (h : content.Offers []) (a : α) :
    content.as (Record.zero a) = .ok a := by
  cases h <;> rfl

theorem Content.Offers.one (h : content.Offers [(f.name, x)]) (hf : f.decode x = .ok a) :
    content.as (Record.one f) = .ok a := by
  cases h with
  | members hfields =>
    have hfold := foldMembers_visit (hfields _ List.mem_cons_self) hf
    simp only [Content.as, Record.one]
    unfold Field.visit at hfold
    rw [hfold]
    rfl
  | items =>
    have hpop : f.pop false [x] = .ok (a, []) := map_eq_ok_iff.2 ⟨a, hf, rfl⟩
    simp only [Content.as, Record.ofAllItems, Record.one, List.map_cons, List.map_nil, hpop]

theorem Content.Offers.two (h : content.Offers [(f.name, x), (g.name, y)])
    (hname : g.name ≠ f.name) (hf : f.decode x = .ok a) (hg : g.decode y = .ok b) :
    content.as (Record.two false f g) = .ok (a, b) := by
  cases h with
  | members hfields =>
    exact Record.two_ofMembers_of_filter false hname (hfields _ List.mem_cons_self)
      (hfields _ (List.mem_cons_of_mem _ List.mem_cons_self)) hf hg
  | items =>
    simp only [Content.as, Record.ofAllItems, List.map_cons, List.map_nil,
      Record.two_ofItems false [] hf hg]

theorem Content.Offers.three (h : content.Offers [(f.name, x), (g.name, y), (k.name, z)])
    (hfirst : g.name ≠ f.name) (hsecond : k.name ≠ f.name) (hthird : k.name ≠ g.name)
    (hf : f.decode x = .ok a) (hg : g.decode y = .ok b) (hk : k.decode z = .ok c) :
    content.as (Record.three false f g k) = .ok (a, b, c) := by
  cases h with
  | members hfields =>
    have hx := foldMembers_visit (hfields (f.name, x) (by simp)) hf
    have hy := foldMembers_visit (hfields (g.name, y) (by simp)) hg
    have hz := foldMembers_visit (hfields (k.name, z) (by simp)) hk
    simp only [Content.as, Record.three, foldMembers_three hfirst hsecond hthird hx hy hz]
    rfl
  | items =>
    have hpop : f.pop false [x, y, z] = .ok (a, [y, z]) := map_eq_ok_iff.2 ⟨a, hf, rfl⟩
    have hpop' : g.pop false [y, z] = .ok (b, [z]) := map_eq_ok_iff.2 ⟨b, hg, rfl⟩
    have hpop'' : k.pop false [z] = .ok (c, []) := map_eq_ok_iff.2 ⟨c, hk, rfl⟩
    simp only [Content.as, Record.ofAllItems, Record.three, List.map_cons, List.map_nil, hpop,
      bind, Except.bind, hpop', hpop'']
    rfl

end Content

end Decode
end Mandate
