import Std.Data.TreeMap
import Mathlib.Data.List.Forall2
import Mathlib.Data.List.Perm.Basic

/-!
# Maps as lists

Looking up keys in a map whose keys are equal when they compare as equal, and the list of its
entries.

Main results:

- Theorems `toList_perm_erase`, `toList_insert_perm_erase`, `toList_insert_perm`: the entries after a
  change.
- Theorem `toList_ofList_perm`: a map that is made from a list has the entries of the list.
- Theorem `getElem?_foldl_insert`: looking up a key after all entries of a map have been put into
  another one.
- Theorem `rel_getElem?_ofList`: looking up a key after all entries have changed one by one, in
  whatever order.
- Theorems `mem_foldl_insert`, `mem_foldl_erase`: the members of a set after several keys have been
  put in or taken out.
-/

namespace Mandate

variable {κ β : Type} [Ord κ] [Std.LawfulEqOrd κ]

/-- Entries whose keys are different are different. -/
theorem nodup_of_keys {l : List (κ × β)} (h : l.Pairwise fun a b => ¬ compare a.1 b.1 = .eq) :
    l.Nodup := by
  refine h.imp ?_
  intro a b hne heq
  rw [heq] at hne
  exact hne Std.ReflOrd.compare_self

variable [Std.TransOrd κ]

theorem mem_toList_iff {t : Std.TreeMap κ β} {entry : κ × β} :
    entry ∈ t.toList ↔ t[entry.1]? = some entry.2 :=
  Std.TreeMap.mem_toList_iff_getElem?_eq_some

variable [DecidableEq κ]

theorem getElem?_insert_eq (t : Std.TreeMap κ β) (k a : κ) (v : β) :
    (t.insert k v)[a]? = if a = k then some v else t[a]? := by
  rw [Std.TreeMap.getElem?_insert]
  by_cases h : a = k
  · simp [h]
  · have hne : k ≠ a := fun heq => h heq.symm
    simp [h, hne]

theorem getElem?_erase_eq (t : Std.TreeMap κ β) (k a : κ) :
    (t.erase k)[a]? = if a = k then none else t[a]? := by
  rw [Std.TreeMap.getElem?_erase]
  by_cases h : a = k
  · simp [h]
  · have hne : k ≠ a := fun heq => h heq.symm
    simp [h, hne]

/-- Taking out an entry takes it off the list of entries. -/
theorem toList_perm_erase {t : Std.TreeMap κ β} {k : κ} {v : β} (h : t[k]? = some v) :
    t.toList.Perm ((k, v) :: (t.erase k).toList) := by
  have hleft : t.toList.Nodup := nodup_of_keys t.distinct_keys_toList
  have hright : ((k, v) :: (t.erase k).toList).Nodup := by
    refine List.nodup_cons.2 ⟨?_, nodup_of_keys (t.erase k).distinct_keys_toList⟩
    simp [mem_toList_iff]
  refine (List.perm_ext_iff_of_nodup hleft hright).2 ?_
  intro entry
  rw [List.mem_cons, mem_toList_iff, mem_toList_iff, getElem?_erase_eq]
  by_cases hk : entry.1 = k
  · rw [if_pos hk, hk, h]
    simp [Prod.ext_iff, hk, eq_comm]
  · have hne : entry ≠ (k, v) := fun heq => hk (congrArg Prod.fst heq)
    simp [hk, hne]

omit [DecidableEq κ] in
/-- Maps in which all keys are looked up alike have the same entries. -/
theorem toList_perm_of_getElem?_eq {s t : Std.TreeMap κ β} (h : ∀ k : κ, s[k]? = t[k]?) :
    s.toList.Perm t.toList := by
  refine (List.perm_ext_iff_of_nodup (nodup_of_keys s.distinct_keys_toList)
    (nodup_of_keys t.distinct_keys_toList)).2 ?_
  intro entry
  rw [mem_toList_iff, mem_toList_iff, h]

/-- An entry that is put in comes onto the list of the other entries. -/
theorem toList_insert_perm_erase (t : Std.TreeMap κ β) (k : κ) (v : β) :
    (t.insert k v).toList.Perm ((k, v) :: (t.erase k).toList) := by
  have hnew : (t.insert k v)[k]? = some v := by
    rw [getElem?_insert_eq, if_pos rfl]
  refine (toList_perm_erase hnew).trans ((toList_perm_of_getElem?_eq fun a => ?_).cons _)
  rw [getElem?_erase_eq, getElem?_erase_eq, getElem?_insert_eq]
  by_cases ha : a = k <;> simp [ha]

/-- A new entry comes onto the list of entries. -/
theorem toList_insert_perm {t : Std.TreeMap κ β} {k : κ} (v : β) (h : t[k]? = none) :
    (t.insert k v).toList.Perm ((k, v) :: t.toList) := by
  refine (toList_insert_perm_erase t k v).trans ((toList_perm_of_getElem?_eq fun a => ?_).cons _)
  rw [getElem?_erase_eq]
  by_cases ha : a = k <;> simp [ha, h]

/-- A map has the entries of the list that it is made from, if no key is there twice. -/
theorem toList_ofList_perm {l : List (κ × β)}
    (h : l.Pairwise fun a b => ¬ compare a.1 b.1 = .eq) : (Std.TreeMap.ofList l).toList.Perm l := by
  refine (List.perm_ext_iff_of_nodup (nodup_of_keys (Std.TreeMap.distinct_keys_toList))
    (nodup_of_keys h)).2 ?_
  intro entry
  rw [mem_toList_iff]
  have hget : ∀ other ∈ l, (Std.TreeMap.ofList l)[other.1]? = some other.2 := fun other hmem =>
    Std.TreeMap.getElem?_ofList_of_mem Std.ReflOrd.compare_self h hmem
  constructor
  · intro hentry
    have hkey : entry.1 ∈ Std.TreeMap.ofList l := by
      rw [Std.TreeMap.mem_iff_isSome_getElem?, hentry]
      rfl
    rw [Std.TreeMap.mem_ofList, List.contains_iff_mem, List.mem_map] at hkey
    rcases hkey with ⟨other, hmem, hsame⟩
    have hvalue := hget other hmem
    rw [hsame, hentry] at hvalue
    have hother : other = entry := Prod.ext hsame (Option.some.inj hvalue).symm
    exact hother ▸ hmem
  · exact hget entry

/-- A map that is made from a list gives a key what the list has under it, if no key is there
twice. -/
theorem getElem?_ofList_iff {l : List (κ × β)}
    (h : l.Pairwise fun a b => ¬ compare a.1 b.1 = .eq) {k : κ} {v : β} :
    (Std.TreeMap.ofList l)[k]? = some v ↔ (k, v) ∈ l := by
  rw [← (toList_ofList_perm h).mem_iff, mem_toList_iff]

/-! ## Putting in entries one by one -/

section Insertions

variable {γ : Type} {f : β → γ} {k : κ} {l : List (κ × β)}

theorem getElem?_foldl_insert_of_not_mem (h : ∀ v, (k, v) ∉ l) (t : Std.TreeMap κ γ) :
    (l.foldl (fun t entry => t.insert entry.1 (f entry.2)) t)[k]? = t[k]? := by
  induction l generalizing t with
  | nil => rfl
  | cons first l ih =>
    have hne : k ≠ first.1 := by
      rintro rfl
      exact h first.2 List.mem_cons_self
    rw [List.foldl_cons, ih (fun v hv => h v (List.mem_cons_of_mem _ hv)), getElem?_insert_eq,
      if_neg hne]

theorem getElem?_foldl_insert_of_mem (h : l.Pairwise fun a b => ¬ compare a.1 b.1 = .eq) {v : β}
    (hmem : (k, v) ∈ l) (t : Std.TreeMap κ γ) :
    (l.foldl (fun t entry => t.insert entry.1 (f entry.2)) t)[k]? = some (f v) := by
  induction l generalizing t with
  | nil => cases hmem
  | cons first l ih =>
    rcases List.pairwise_cons.1 h with ⟨hfirst, hrest⟩
    rw [List.foldl_cons]
    rcases List.mem_cons.1 hmem with rfl | hmem
    · -- the key is not put in again
      have hgone : ∀ w, (k, w) ∉ l := fun w hw => hfirst (k, w) hw Std.ReflOrd.compare_self
      rw [getElem?_foldl_insert_of_not_mem hgone, getElem?_insert_eq, if_pos rfl]
    · exact ih hrest hmem _

/-- The entries of a map are put into another one, where they take the place of the old ones. -/
theorem getElem?_foldl_insert (m : Std.TreeMap κ β) (f : β → γ) (t : Std.TreeMap κ γ) (k : κ) :
    (m.toList.foldl (fun t entry => t.insert entry.1 (f entry.2)) t)[k]? =
      (m[k]?.map f).or t[k]? := by
  cases hk : m[k]? with
  | some v =>
    rw [getElem?_foldl_insert_of_mem m.distinct_keys_toList (mem_toList_iff.2 hk)]
    rfl
  | none =>
    rw [getElem?_foldl_insert_of_not_mem]
    · rfl
    · intro v hv
      rw [mem_toList_iff.1 hv] at hk
      cases hk

end Insertions

/-! ## Changing all entries -/

theorem exists_of_forall₂ {α γ : Type} {R : α → γ → Prop} {l : List α} {m : List γ}
    (h : List.Forall₂ R l m) : (∀ a ∈ l, ∃ b ∈ m, R a b) ∧ ∀ b ∈ m, ∃ a ∈ l, R a b := by
  induction h with
  | nil => simp
  | @cons a b l m hab _ ih =>
    constructor
    · intro x hx
      rcases List.mem_cons.1 hx with rfl | hx
      · exact ⟨b, List.mem_cons_self, hab⟩
      · rcases ih.1 x hx with ⟨y, hy, hxy⟩
        exact ⟨y, List.mem_cons_of_mem _ hy, hxy⟩
    · intro y hy
      rcases List.mem_cons.1 hy with rfl | hy
      · exact ⟨a, List.mem_cons_self, hab⟩
      · rcases ih.2 y hy with ⟨x, hx, hxy⟩
        exact ⟨x, List.mem_cons_of_mem _ hx, hxy⟩

theorem map_eq_of_forall₂ {α γ δ : Type} {f : α → δ} {g : γ → δ} {l : List α} {m : List γ}
    (h : List.Forall₂ (fun a b => g b = f a) l m) : m.map g = l.map f := by
  induction h with
  | nil => rfl
  | cons hab _ ih => rw [List.map_cons, List.map_cons, hab, ih]

section Related

variable {α γ : Type} {R S : α → γ → Prop} {a : Option α} {b : Option γ}

theorem rel_imp (h : Option.Rel R a b) (himp : ∀ x y, a = some x → R x y → S x y) :
    Option.Rel S a b := by
  cases h with
  | none => exact .none
  | some hxy => exact .some (himp _ _ rfl hxy)

theorem exists_left_of_rel {y : γ} (h : Option.Rel R a b) (hb : b = some y) :
    ∃ x, a = some x ∧ R x y := by
  cases h with
  | none => cases hb
  | some hxy =>
    cases hb
    exact ⟨_, rfl, hxy⟩

theorem exists_right_of_rel {x : α} (h : Option.Rel R a b) (ha : a = some x) :
    ∃ y, b = some y ∧ R x y := by
  cases h with
  | none => cases ha
  | some hxy =>
    cases ha
    exact ⟨_, rfl, hxy⟩

theorem map_eq_of_rel {δ : Type} {f : α → δ} {g : γ → δ} (h : Option.Rel R a b)
    (hf : ∀ x y, R x y → g y = f x) : b.map g = a.map f := by
  cases h with
  | none => rfl
  | some hxy => exact congrArg some (hf _ _ hxy)

theorem eq_none_iff_of_rel (h : Option.Rel R a b) : b = none ↔ a = none := by
  cases h with
  | none => simp
  | some _ => simp

end Related

section Entries

variable {γ : Type} {R : β → γ → Prop} {t : Std.TreeMap κ β} {l : List (κ × β)} {m : List (κ × γ)}

omit [Std.LawfulEqOrd κ] [DecidableEq κ] in
/-- In whatever order the entries of a map are listed, their keys are apart. -/
theorem distinct_of_perm (hl : l.Perm t.toList) :
    l.Pairwise fun a b => ¬ compare a.1 b.1 = .eq :=
  (hl.pairwise_iff fun hne heq => hne (Std.OrientedCmp.eq_symm heq)).2 t.distinct_keys_toList

omit [DecidableEq κ] in
theorem nodup_keys_of_perm (hl : l.Perm t.toList) : (l.map Prod.fst).Nodup := by
  refine List.Pairwise.map _ ?_ (distinct_of_perm hl)
  intro a b hne heq
  rw [heq] at hne
  exact hne Std.ReflOrd.compare_self

omit [Std.LawfulEqOrd κ] [DecidableEq κ] in
/-- Entries that change one by one keep their keys apart. -/
theorem distinct_of_forall₂ (hl : l.Perm t.toList)
    (h : List.Forall₂ (fun a b => b.1 = a.1 ∧ R a.2 b.2) l m) :
    m.Pairwise fun a b => ¬ compare a.1 b.1 = .eq := by
  have hkeys : m.map Prod.fst = l.map Prod.fst := map_eq_of_forall₂ (h.imp fun _ _ hab => hab.1)
  have hdistinct : (l.map Prod.fst).Pairwise fun a b => ¬ compare a b = .eq :=
    List.pairwise_map.2 (distinct_of_perm hl)
  rw [← hkeys] at hdistinct
  exact List.pairwise_map.1 hdistinct

/-- A key has an entry after a change of all entries, in whatever order, if it had one before, and a
related one. -/
theorem rel_getElem?_ofList (hl : l.Perm t.toList)
    (h : List.Forall₂ (fun a b => b.1 = a.1 ∧ R a.2 b.2) l m) (k : κ) :
    Option.Rel R t[k]? (Std.TreeMap.ofList m)[k]? := by
  have hmem : ∀ entry, entry ∈ (Std.TreeMap.ofList m).toList ↔ entry ∈ m := fun entry =>
    (toList_ofList_perm (distinct_of_forall₂ hl h)).mem_iff
  cases hold : t[k]? with
  | some v =>
    have hentry : (k, v) ∈ l := hl.mem_iff.2 (mem_toList_iff.2 hold)
    rcases (exists_of_forall₂ h).1 (k, v) hentry with ⟨⟨k', w⟩, hw, hkey, hrel⟩
    have hsame : k' = k := hkey
    have hnew : (Std.TreeMap.ofList m)[k]? = some w :=
      mem_toList_iff.1 ((hmem (k, w)).2 (hsame ▸ hw))
    rw [hnew]
    exact .some hrel
  | none =>
    cases hnew : (Std.TreeMap.ofList m)[k]? with
    | none => exact .none
    | some w =>
      have hentry : (k, w) ∈ m := (hmem (k, w)).1 (mem_toList_iff.2 hnew)
      rcases (exists_of_forall₂ h).2 (k, w) hentry with ⟨⟨k', v⟩, hv, hkey, -⟩
      have hsame : k = k' := hkey
      have hthere : t[k]? = some v := mem_toList_iff.1 (hl.mem_iff.1 (hsame ▸ hv))
      rw [hold] at hthere
      cases hthere

end Entries

/-! ## Sets of keys -/

section Sets

omit [DecidableEq κ]

theorem mem_foldl_insert {t : Std.TreeSet κ} {keys : List κ} {k : κ} :
    k ∈ keys.foldl Std.TreeSet.insert t ↔ k ∈ keys ∨ k ∈ t := by
  induction keys generalizing t with
  | nil => simp
  | cons first keys ih =>
    rw [List.foldl_cons, ih, Std.TreeSet.mem_insert, Std.LawfulEqCmp.compare_eq_iff_eq,
      List.mem_cons, eq_comm]
    tauto

theorem mem_foldl_erase {t : Std.TreeSet κ} {keys : List κ} {k : κ} :
    k ∈ keys.foldl Std.TreeSet.erase t ↔ k ∈ t ∧ k ∉ keys := by
  induction keys generalizing t with
  | nil => simp
  | cons first keys ih =>
    rw [List.foldl_cons, ih, Std.TreeSet.mem_erase, Ne, Std.LawfulEqCmp.compare_eq_iff_eq,
      List.mem_cons, eq_comm]
    tauto

end Sets

end Mandate
