import Mandate.Json.Decode
import Mandate.Proofs.Results

/-!
# Where decoded values come from

Whatever is decoded from a record has been decoded from the documents in it, one for each field, in
every spelling that is accepted.  In the other direction, the members that are written for a record
give its fields back.

Main results:

- Definition `Record.Draws`: what a record says about the documents that it takes its fields from.
- Theorems `Record.draws_zero`, `Record.draws_one`, `Record.draws_two`, `Record.draws_three`,
  `Record.Draws.map`: each kind of record takes every field from one of the documents.
- Theorem `nesting_lt_of_splitTag`: the content of a tagged value is less deep than the value.
- Theorems `Record.one_ofMembers`, `Record.two_ofMembers`, `Record.three_ofMembers`,
  `splitTag_object`: reading members that stand in the order of the fields, behind the tag.
-/

namespace Mandate
namespace Decode

section Fields

variable {δ α : Type}

/-- The value is that of one of the documents, or the one for a field that is absent. -/
def Field.Yields (f : Field δ α) (ds : List δ) (a : α) : Prop :=
  (∃ d ∈ ds, f.decode d = .ok a) ∨ f.absent = some a

/-- A slot that is filled holds the value of one of the documents. -/
def Field.Holds (f : Field δ α) (ds : List δ) (slot : Option α) : Prop :=
  ∀ a, slot = some a → ∃ d ∈ ds, f.decode d = .ok a

theorem Field.Yields.mono {f : Field δ α} {ds more : List δ} {a : α} (h : f.Yields ds a)
    (hsub : ds ⊆ more) : f.Yields more a := by
  rcases h with ⟨d, hd, hdecode⟩ | habsent
  · exact Or.inl ⟨d, hsub hd, hdecode⟩
  · exact Or.inr habsent

theorem Field.holds_none (f : Field δ α) (ds : List δ) : f.Holds ds none := by
  intro a h
  cases h

theorem Field.holds_fill {f : Field δ α} {ds : List δ} {slot filled : Option α} {d : δ}
    (hd : d ∈ ds) (h : f.fill slot d = .ok filled) : f.Holds ds filled := by
  cases slot with
  | some a => cases h
  | none =>
    rcases map_eq_ok_iff.1 h with ⟨a, hdecode, rfl⟩
    intro b hb
    cases hb
    exact ⟨d, hd, hdecode⟩

theorem Field.yields_take {f : Field δ α} {ds : List δ} {slot : Option α} {a : α}
    (hslot : f.Holds ds slot) (h : f.take slot = .ok a) : f.Yields ds a := by
  unfold Field.take at h
  split at h
  · cases h
    exact Or.inl (hslot a rfl)
  · next habsent =>
    cases h
    exact Or.inr habsent
  · cases h

/-- The first item gives the value, and the others are left; or the items have ended. -/
theorem Field.yields_pop {f : Field δ α} {short : Bool} {ds rest : List δ} {a : α}
    (h : f.pop short ds = .ok (a, rest)) : f.Yields ds a ∧ rest ⊆ ds := by
  cases ds with
  | nil =>
    unfold Field.pop at h
    split at h
    · next _ _ hnil => cases hnil
    · next habsent =>
      cases h
      exact ⟨Or.inr habsent, List.Subset.refl _⟩
    · cases h
  | cons d ds =>
    have hfirst : (f.decode d).map (·, ds) = .ok (a, rest) := h
    rcases map_eq_ok_iff.1 hfirst with ⟨b, hdecode, hpair⟩
    cases hpair
    exact ⟨Or.inl ⟨d, List.mem_cons_self, hdecode⟩, List.subset_cons_self _ _⟩

end Fields

/-! ## Records -/

/-- Whatever holds of the state at first and is kept by every member holds in the end. -/
theorem foldMembers_invariant {δ σ : Type} {step : σ → String → δ → Decoded σ}
    {members : List (String × δ)} (inv : σ → Prop)
    (hstep : ∀ state name d next, d ∈ members.map Prod.snd → inv state →
      step state name d = .ok next → inv next)
    {state final : σ} (hinv : inv state) (h : foldMembers step state members = .ok final) :
    inv final := by
  induction members generalizing state with
  | nil =>
    cases h
    exact hinv
  | cons member members ih =>
    rcases member with ⟨name, d⟩
    unfold foldMembers at h
    cases hnext : step state name d with
    | error e =>
      rw [hnext] at h
      cases h
    | ok next =>
      rw [hnext] at h
      refine ih ?_ (hstep state name d next List.mem_cons_self hinv hnext) h
      exact fun state name d next hd => hstep state name d next (List.mem_cons_of_mem _ hd)

/-- Whatever the record reads is related in this way to the documents in it. -/
structure Record.Draws {δ α : Type} (r : Record δ α) (good : List δ → α → Prop) : Prop where
  ofMembers : ∀ {members a}, r.ofMembers members = .ok a → good (members.map Prod.snd) a
  ofItems : ∀ {ds a rest}, r.ofItems ds = .ok (a, rest) → good ds a

section Records

variable {δ α β γ : Type}

theorem Record.draws_zero (a : α) : (Record.zero a : Record δ α).Draws fun _ b => b = a where
  ofMembers := by
    intro members b h
    cases h
    rfl
  ofItems := by
    intro ds b rest h
    cases h
    rfl

theorem Record.draws_one (f : Field δ α) : (Record.one f).Draws f.Yields where
  ofMembers := by
    intro members a h
    rcases bind_eq_ok_iff.1 h with ⟨slot, hfold, htake⟩
    refine f.yields_take ?_ htake
    refine foldMembers_invariant (f.Holds (members.map Prod.snd)) ?_ (f.holds_none _) hfold
    intro slot name d next hd hslot hnext
    split at hnext
    · exact f.holds_fill hd hnext
    · cases hnext
      exact hslot
  ofItems := fun h => (f.yields_pop h).1

theorem Record.draws_two (short : Bool) (f : Field δ α) (g : Field δ β) :
    (Record.two short f g).Draws fun ds a => f.Yields ds a.1 ∧ g.Yields ds a.2 where
  ofMembers := by
    intro members a h
    rcases bind_eq_ok_iff.1 h with ⟨slots, hfold, htakes⟩
    rcases bind_eq_ok_iff.1 htakes with ⟨b, hb, htakes⟩
    rcases bind_eq_ok_iff.1 htakes with ⟨c, hc, hpair⟩
    cases hpair
    have hslots := foldMembers_invariant
      (fun slots => f.Holds (members.map Prod.snd) slots.1 ∧
        g.Holds (members.map Prod.snd) slots.2)
      (by
        rintro ⟨a, b⟩ name d next hd hslots hnext
        dsimp only at hnext
        split at hnext
        · rcases map_eq_ok_iff.1 hnext with ⟨filled, hfilled, rfl⟩
          exact ⟨f.holds_fill hd hfilled, hslots.2⟩
        · split at hnext
          · rcases map_eq_ok_iff.1 hnext with ⟨filled, hfilled, rfl⟩
            exact ⟨hslots.1, g.holds_fill hd hfilled⟩
          · cases hnext
            exact hslots)
      ⟨f.holds_none _, g.holds_none _⟩ hfold
    exact ⟨f.yields_take hslots.1 hb, g.yields_take hslots.2 hc⟩
  ofItems := by
    intro ds a rest h
    rcases bind_eq_ok_iff.1 h with ⟨first, hfirst, h⟩
    rcases bind_eq_ok_iff.1 h with ⟨second, hsecond, hpair⟩
    cases hpair
    rcases f.yields_pop hfirst with ⟨hyields, hrest⟩
    exact ⟨hyields, (g.yields_pop hsecond).1.mono hrest⟩

theorem Record.draws_three (short : Bool) (f : Field δ α) (g : Field δ β) (k : Field δ γ) :
    (Record.three short f g k).Draws fun ds a =>
      f.Yields ds a.1 ∧ g.Yields ds a.2.1 ∧ k.Yields ds a.2.2 where
  ofMembers := by
    intro members a h
    rcases bind_eq_ok_iff.1 h with ⟨slots, hfold, htakes⟩
    rcases bind_eq_ok_iff.1 htakes with ⟨b, hb, htakes⟩
    rcases bind_eq_ok_iff.1 htakes with ⟨c, hc, htakes⟩
    rcases bind_eq_ok_iff.1 htakes with ⟨d, hd, hpair⟩
    cases hpair
    have hslots := foldMembers_invariant
      (fun slots => f.Holds (members.map Prod.snd) slots.1 ∧
        g.Holds (members.map Prod.snd) slots.2.1 ∧ k.Holds (members.map Prod.snd) slots.2.2)
      (by
        rintro ⟨a, b, c⟩ name d next hd hslots hnext
        dsimp only at hnext
        split at hnext
        · rcases map_eq_ok_iff.1 hnext with ⟨filled, hfilled, rfl⟩
          exact ⟨f.holds_fill hd hfilled, hslots.2⟩
        · split at hnext
          · rcases map_eq_ok_iff.1 hnext with ⟨filled, hfilled, rfl⟩
            exact ⟨hslots.1, g.holds_fill hd hfilled, hslots.2.2⟩
          · split at hnext
            · rcases map_eq_ok_iff.1 hnext with ⟨filled, hfilled, rfl⟩
              exact ⟨hslots.1, hslots.2.1, k.holds_fill hd hfilled⟩
            · cases hnext
              exact hslots)
      ⟨f.holds_none _, g.holds_none _, k.holds_none _⟩ hfold
    exact ⟨f.yields_take hslots.1 hb, g.yields_take hslots.2.1 hc, k.yields_take hslots.2.2 hd⟩
  ofItems := by
    intro ds a rest h
    rcases bind_eq_ok_iff.1 h with ⟨first, hfirst, h⟩
    rcases bind_eq_ok_iff.1 h with ⟨second, hsecond, h⟩
    rcases bind_eq_ok_iff.1 h with ⟨third, hthird, hpair⟩
    cases hpair
    rcases f.yields_pop hfirst with ⟨hyields, hrest⟩
    rcases g.yields_pop hsecond with ⟨hyields', hrest'⟩
    exact ⟨hyields, hyields'.mono hrest,
      (k.yields_pop hthird).1.mono (List.Subset.trans hrest' hrest)⟩

/-- A value that is made of the fields has what they have. -/
theorem Record.Draws.map {r : Record δ α} {good : List δ → α → Prop} (h : r.Draws good)
    (g : α → β) : (r.map g).Draws fun ds b => ∃ a, good ds a ∧ g a = b where
  ofMembers := by
    intro members b hb
    rcases map_eq_ok_iff.1 hb with ⟨a, ha, rfl⟩
    exact ⟨a, h.ofMembers ha, rfl⟩
  ofItems := by
    intro ds b rest hb
    rcases map_eq_ok_iff.1 hb with ⟨⟨a, items⟩, ha, hpair⟩
    cases hpair
    exact ⟨a, h.ofItems ha, rfl⟩

/-- What is read from all items is read from them. -/
theorem Record.Draws.ofAllItems {r : Record δ α} {good : List δ → α → Prop} (h : r.Draws good)
    {ds : List δ} {a : α} (ha : r.ofAllItems ds = .ok a) : good ds a := by
  unfold Record.ofAllItems at ha
  split at ha
  · next hitems =>
    cases ha
    exact h.ofItems hitems
  · cases ha
  · cases ha

end Records

/-! ## Tagged values -/

/-- The documents in the content of a tagged value. -/
def Content.documents : Content → List Json
  | .members ms => ms.map Prod.snd
  | .items ds => ds

theorem Record.Draws.content {α : Type} {r : Record Json α} {good : List Json → α → Prop}
    (h : r.Draws good) {content : Content} {a : α} (ha : content.as r = .ok a) :
    good content.documents a := by
  cases content with
  | members _ => exact h.ofMembers ha
  | items _ => exact h.ofAllItems ha

/-- A record that is written in either form is read from some documents. -/
theorem Record.Draws.decode {α : Type} {r : Record Json α} {good : List Json → α → Prop}
    (h : r.Draws good) {j : Json} {a : α} (ha : r.decode j = .ok a) : ∃ ds, good ds a := by
  unfold Record.decode at ha
  split at ha
  · exact ⟨_, h.ofMembers ha⟩
  · exact ⟨_, h.ofAllItems ha⟩
  · cases ha

theorem nesting_le_of_mem_items {items : List Json} {j : Json} (h : j ∈ items) :
    j.nesting ≤ Json.itemsNesting items := by
  induction items with
  | nil => cases h
  | cons k items ih =>
    rw [Json.itemsNesting]
    rcases List.mem_cons.1 h with rfl | hrest
    · exact Nat.le_max_left _ _
    · exact Nat.le_trans (ih hrest) (Nat.le_max_right _ _)

theorem nesting_le_of_mem_members {members : List (String × Json)} {j : Json}
    (h : j ∈ members.map Prod.snd) : j.nesting ≤ Json.membersNesting members := by
  induction members with
  | nil => cases h
  | cons member members ih =>
    rw [Json.membersNesting]
    rcases List.mem_cons.1 h with rfl | hrest
    · exact Nat.le_max_left _ _
    · exact Nat.le_trans (ih hrest) (Nat.le_max_right _ _)

theorem splitMembers_cons (inner : Bool) (tags : List String) (found : Option String)
    (name : String) (j : Json) (rest : List (String × Json)) :
    splitMembers inner tags found ((name, j) :: rest) =
      if name = tagName then
        match found with
        | some _ => .error (.duplicateField tagName)
        | none => (decodeTag inner tags j).bind fun tag => splitMembers inner tags (some tag) rest
      else (splitMembers inner tags found rest).map fun split =>
        (split.1, (name, j) :: split.2) := by
  cases found with
  | some tag => rfl
  | none =>
    by_cases hname : name = tagName
    · rw [if_pos hname]
      rw [splitMembers.eq_def]
      dsimp only
      rw [if_pos hname]
      cases decodeTag inner tags j <;> rfl
    · rw [if_neg hname]
      rw [splitMembers.eq_def]
      dsimp only
      rw [if_neg hname]

/-- The members beside the tag are members of the object. -/
theorem subset_of_splitMembers {inner : Bool} {tags : List String} {found : Option String}
    {members others : List (String × Json)} {tag : String}
    (h : splitMembers inner tags found members = .ok (tag, others)) : others ⊆ members := by
  induction members generalizing found others with
  | nil =>
    cases found with
    | none => cases h
    | some found =>
      cases h
      exact List.Subset.refl _
  | cons member members ih =>
    rcases member with ⟨name, j⟩
    rw [splitMembers_cons] at h
    split at h
    · split at h
      · cases h
      · rcases bind_eq_ok_iff.1 h with ⟨tag', -, hrest⟩
        exact List.subset_cons_of_subset _ (ih hrest)
    · rcases map_eq_ok_iff.1 h with ⟨⟨tag', others'⟩, hrest, hpair⟩
      cases hpair
      exact List.cons_subset_cons _ (ih hrest)

/-- The content of a tagged value is less deep than the value. -/
theorem nesting_lt_of_splitTag {inner : Bool} {tags : List String} {j : Json} {tag : String}
    {content : Content} (h : splitTag inner tags j = .ok (tag, content)) :
    ∀ k ∈ content.documents, k.nesting < j.nesting := by
  unfold splitTag at h
  split at h
  · next members =>
    rcases map_eq_ok_iff.1 h with ⟨⟨tag', others⟩, hsplit, hpair⟩
    cases hpair
    intro k hk
    have hmem : k ∈ members.map Prod.snd := List.map_subset _ (subset_of_splitMembers hsplit) hk
    exact Nat.lt_succ_of_le (nesting_le_of_mem_members hmem)
  · cases h
  · next first items =>
    rcases map_eq_ok_iff.1 h with ⟨tag', htag, hpair⟩
    cases hpair
    intro k hk
    exact Nat.lt_succ_of_le (nesting_le_of_mem_items (List.mem_cons_of_mem _ hk))
  · cases h

/-- A tagged value is no scalar. -/
theorem nesting_pos_of_splitTag {inner : Bool} {tags : List String} {j : Json}
    {split : String × Content} (h : splitTag inner tags j = .ok split) : 0 < j.nesting := by
  unfold splitTag at h
  split at h
  · exact Nat.succ_pos _
  · cases h
  · exact Nat.succ_pos _
  · cases h

/-! ## Members in the order of the fields -/

section Ordered

variable {δ α β γ : Type} {f : Field δ α} {g : Field δ β} {k : Field δ γ} {x y z : δ}
  {a : α} {b : β} {c : γ}

theorem Record.map_ofMembers {r : Record δ α} {members : List (String × δ)}
    (h : r.ofMembers members = .ok a) (g : α → β) : (r.map g).ofMembers members = .ok (g a) :=
  map_eq_ok_iff.2 ⟨a, h, rfl⟩

theorem Record.one_ofMembers (hf : f.decode x = .ok a) :
    (Record.one f).ofMembers [(f.name, x)] = .ok a := by
  simp only [Record.one, foldMembers, if_true, Field.fill, hf]
  rfl

theorem Record.two_ofMembers (short : Bool) (hf : f.decode x = .ok a) (hg : g.decode y = .ok b)
    (hname : g.name ≠ f.name) :
    (Record.two short f g).ofMembers [(f.name, x), (g.name, y)] = .ok (a, b) := by
  simp only [Record.two, foldMembers, if_true, if_neg hname, Field.fill, hf, hg]
  rfl

/-- A second field that cannot be read is the reason why the record cannot. -/
theorem Record.two_ofMembers_error (short : Bool) {e : DecodeError} (hf : f.decode x = .ok a)
    (hg : g.decode y = .error e) (hname : g.name ≠ f.name) :
    (Record.two short f g).ofMembers [(f.name, x), (g.name, y)] = .error e := by
  simp only [Record.two, foldMembers, if_true, if_neg hname, Field.fill, hf, hg]
  rfl

/-- Two fields may also stand in a list. -/
theorem Record.two_ofItems (short : Bool) (rest : List δ) (hf : f.decode x = .ok a)
    (hg : g.decode y = .ok b) :
    (Record.two short f g).ofItems (x :: y :: rest) = .ok ((a, b), rest) := by
  have hfirst : f.pop short (x :: y :: rest) = .ok (a, y :: rest) :=
    map_eq_ok_iff.2 ⟨a, hf, rfl⟩
  have hsecond : g.pop short (y :: rest) = .ok (b, rest) := map_eq_ok_iff.2 ⟨b, hg, rfl⟩
  simp only [Record.two, hfirst, bind, Except.bind, hsecond]
  rfl

theorem Record.three_ofMembers (short : Bool) (hf : f.decode x = .ok a) (hg : g.decode y = .ok b)
    (hk : k.decode z = .ok c) (hfirst : g.name ≠ f.name) (hsecond : k.name ≠ f.name)
    (hthird : k.name ≠ g.name) :
    (Record.three short f g k).ofMembers [(f.name, x), (g.name, y), (k.name, z)] =
      .ok (a, b, c) := by
  simp only [Record.three, foldMembers, if_true, if_neg hfirst, if_neg hsecond, if_neg hthird,
    Field.fill, hf, hg, hk]
  rfl

end Ordered

/-- Once the tag is found, all other members are content. -/
theorem splitMembers_some {inner : Bool} {tags : List String} {tag : String}
    {members : List (String × Json)} (h : ∀ m ∈ members, m.1 ≠ tagName) :
    splitMembers inner tags (some tag) members = .ok (tag, members) := by
  induction members with
  | nil => rfl
  | cons member members ih =>
    rcases member with ⟨name, j⟩
    have hname : name ≠ tagName := h _ List.mem_cons_self
    rw [splitMembers_cons, if_neg hname, ih fun m hm => h m (List.mem_cons_of_mem _ hm)]
    rfl

/-- An object that starts with its tag is split behind it. -/
theorem splitTag_object (inner : Bool) {tags : List String} {tag : String}
    {fields : List (String × Json)} (htag : tag ∈ tags) (hfields : ∀ m ∈ fields, m.1 ≠ tagName) :
    splitTag inner tags (.object ((tagName, .text tag) :: fields)) =
      .ok (tag, .members fields) := by
  have hdecode : decodeTag inner tags (.text tag) = .ok tag := if_pos htag
  rw [splitTag, splitMembers_cons, if_pos rfl, hdecode]
  dsimp only [Except.bind]
  rw [splitMembers_some hfields]
  rfl

end Decode
end Mandate
