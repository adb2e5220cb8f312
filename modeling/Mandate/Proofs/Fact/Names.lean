import Mandate.Analysis.Reads
import Mandate.Proofs.Fact.Spelling
import Mandate.Proofs.Network.Lowering
import Mandate.Proofs.Validation.Admission

/-!
# The names in the facts that a constraint reads

Every name in such a fact stands in the constraint: in the term or the predicate that reads it, or
it is the permission of the constraint.  The names in an admissible constraint are identifiers,
which are not empty and hold no arrow, so the texts of the facts it reads have one reading.

Main results:

- Theorem `Constraint.exists_follow?_of_names`: where the names in a fact stand.
- Theorem `FactKey.legible_of_check`: facts of an admissible constraint are legible.
- Theorem `FactKey.texts_unambiguous`: which texts are read, as which keys.
-/

namespace Mandate

/-! ## Where names stand -/

/-- The name stands somewhere in the place. -/
def Place.Holds (place : Place) (name : String) : Prop :=
  ∃ path, place.follow? path = some (.name name)

theorem Place.Holds.of_field {place part : Place} {field name : String} (h : part.Holds name)
    (hfield : (field, part) ∈ place.fields) : place.Holds name := by
  rcases h with ⟨path, hpath⟩
  exact ⟨field :: path, Place.follow?_cons_iff.2 ⟨part, hfield, hpath⟩⟩

theorem Place.holds_of_mem_fields {place : Place} {field name : String}
    (h : (field, .name name) ∈ place.fields) : place.Holds name :=
  Place.Holds.of_field ⟨[], rfl⟩ h

/-- The names in a fact that a leaf reads are fields of the leaf. -/
theorem Term.holds_of_ofTerm? {t : Term} {key : FactKey} {name : String}
    (h : FactKey.ofTerm? t = some key) (hname : name ∈ key.names) : (Place.term t).Holds name := by
  have hfield : ∃ field, (field, .name name) ∈ t.fields := by
    cases t <;> cases h <;> simp_all [FactKey.names, Term.fields, exists_or]
  rcases hfield with ⟨field, hfield⟩
  exact Place.holds_of_mem_fields hfield

theorem Term.holds_of_reads {t : Term} {key : FactKey} {name : String} (h : key ∈ t.reads)
    (hname : name ∈ key.names) : (Place.term t).Holds name := by
  induction t with
  | add l r ihl ihr =>
    rcases List.mem_append.1 h with h | h
    · exact (ihl h).of_field List.mem_cons_self
    · exact (ihr h).of_field (List.mem_cons_of_mem _ List.mem_cons_self)
  | sub l r ihl ihr =>
    rcases List.mem_append.1 h with h | h
    · exact (ihl h).of_field List.mem_cons_self
    · exact (ihr h).of_field (List.mem_cons_of_mem _ List.mem_cons_self)
  | _ => exact Term.holds_of_ofTerm? (Option.mem_toList.1 h) hname

/-- The names in a fact that a predicate reads stand in it, unless it is read of the owner. -/
theorem Predicate.holds_of_reads {owner : PermId} {p : Predicate} {key : FactKey} {name : String}
    (h : key ∈ p.reads owner) (hname : name ∈ key.names) :
    name = owner.text ∨ (Place.predicate p).Holds name := by
  rcases List.mem_append.1 h with h | h
  · rw [Option.mem_toList] at h
    cases p with
    | maxDelegationDepth limit =>
      cases h
      exact Or.inl (List.mem_singleton.1 hname)
    | permissionExists q | permissionEnabled q =>
      cases h
      rcases List.mem_singleton.1 hname with rfl
      exact Or.inr (Place.holds_of_mem_fields List.mem_cons_self)
    | rateLimit limit period =>
      rcases Option.map_eq_some_iff.1 h with ⟨n, -, rfl⟩
      exact Or.inl (List.mem_singleton.1 hname)
    | inactiveUnlessRedelegated =>
      cases h
      exact Or.inl (List.mem_singleton.1 hname)
  · cases p with
    | maxDelegationDepth limit =>
      exact Or.inr ((Term.holds_of_reads h hname).of_field List.mem_cons_self)
    | rateLimit limit period =>
      exact Or.inr ((Term.holds_of_reads h hname).of_field List.mem_cons_self)
    | _ => cases h

theorem Formula.holds_of_reads {owner : PermId} {f : Formula} {key : FactKey} {name : String}
    (h : key ∈ f.reads owner) (hname : name ∈ key.names) :
    name = owner.text ∨ (Place.formula f).Holds name := by
  have hsecond : ∀ {first x : String × Place}, x ∈ [first, x] := fun {first _} =>
    List.mem_cons_of_mem first List.mem_cons_self
  induction f with
  | not f ih => exact (ih h).imp_right fun hf => hf.of_field List.mem_cons_self
  | and l r ihl ihr | or l r ihl ihr =>
    rcases List.mem_append.1 h with h | h
    · exact (ihl h).imp_right fun hl => hl.of_field List.mem_cons_self
    · exact (ihr h).imp_right fun hr => hr.of_field hsecond
  | compare op l r =>
    rcases List.mem_append.1 h with h | h
    · exact Or.inr ((Term.holds_of_reads h hname).of_field List.mem_cons_self)
    · exact Or.inr ((Term.holds_of_reads h hname).of_field hsecond)
  | base p =>
    exact (Predicate.holds_of_reads h hname).imp_right fun hp => hp.of_field List.mem_cons_self

/-- Every name in a fact that a constraint reads stands somewhere in the constraint. -/
theorem Constraint.exists_follow?_of_names {c : Constraint} {key : FactKey} {name : String}
    (h : key ∈ c.referencedFacts) (hname : name ∈ key.names) :
    ∃ path, c.follow? path = some (.name name) := by
  have hplace : (Place.constraint c).Holds name := by
    rcases Formula.holds_of_reads (FactKey.mem_sorted_iff.1 h) hname with rfl | hbody
    · exact Place.holds_of_mem_fields List.mem_cons_self
    · exact hbody.of_field (List.mem_cons_of_mem _ List.mem_cons_self)
  exact hplace

/-! ## Admissible constraints -/

/-- Every name that stands in an admissible constraint is an identifier. -/
theorem Limits.isIdentifier_of_check {limits : Limits} {c : Constraint} {path : Path}
    {name : String} (h : limits.check c = none) (hpath : c.follow? path = some (.name name)) :
    IsIdentifier limits.maxIdentifier name :=
  (Limits.admits_of_check h).names path name hpath

theorem IsIdentifier.ne_empty {limit : Nat} {s : String} (h : IsIdentifier limit s) : s ≠ "" := by
  rintro rfl
  exact absurd h.1 (by decide)

/-- No character of an arrow's head is one of an identifier. -/
theorem IsIdentifier.no_arrow {limit : Nat} {s : String} (h : IsIdentifier limit s) :
    ¬ ['-', '>'] <:+: s.toList := by
  intro harrow
  have hhead : IsNameChar '>' := h.2.2 '>' (harrow.subset (by simp))
  rw [← isIdentifierChar_iff] at hhead
  exact absurd hhead (by decide)

namespace FactKey

/-- The facts of an admissible constraint are legible. -/
theorem legible_of_check {limits : Limits} {c : Constraint} {k : FactKey}
    (h : limits.check c = none) (hk : k ∈ c.referencedFacts) : k.Legible := by
  have hnames : ∀ name ∈ k.names, IsIdentifier limits.maxIdentifier name := by
    intro name hname
    rcases Constraint.exists_follow?_of_names hk hname with ⟨path, hpath⟩
    exact Limits.isIdentifier_of_check h hpath
  refine ⟨fun name hname => (hnames name hname).ne_empty, fun s t hweight => ?_⟩
  have hsource : s.text ∈ k.names := by
    rcases hweight with rfl | rfl
    · exact List.mem_cons_self
    · exact List.mem_cons_self
  exact (hnames s.text hsource).no_arrow

/-- The written text of a key is read as the key. -/
theorem ofText?_display_iff {k : FactKey} : ofText? k.display = some k ↔ k.Legible := by
  rw [ofText?_eq_some_iff, and_iff_left (Spelling.display k)]

/-- The text of a key is read as that key if and only if all names in it are there and the first
account of a weight holds no arrow.  Facts of admissible constraints are such keys, so different
ones have different texts.  A text that is read is the text of the key that it is read as, but for
a plus sign and zeros in front of a period, and that text is read as the same key. -/
theorem texts_unambiguous :
    (∀ k : FactKey, ofText? k.display = some k ↔ k.Legible) ∧
      (∀ (limits : Limits) (c : Constraint), limits.check c = none →
        ∀ k ∈ c.referencedFacts, ofText? k.display = some k) ∧
      (∀ (limits limits' : Limits) (c c' : Constraint), limits.check c = none →
        limits'.check c' = none → ∀ k ∈ c.referencedFacts, ∀ k' ∈ c'.referencedFacts,
          k.display = k'.display → k = k') ∧
      ∀ (text : String) (k : FactKey), ofText? text = some k →
        ofText? k.display = some k ∧ k.Spelling text := by
  refine ⟨fun k => ofText?_display_iff, ?_, ?_, ?_⟩
  · intro limits c h k hk
    exact ofText?_display_iff.2 (legible_of_check h hk)
  · intro limits limits' c c' h h' k hk k' hk' htext
    have hread : ofText? k.display = some k := ofText?_display_iff.2 (legible_of_check h hk)
    have hread' : ofText? k'.display = some k' := ofText?_display_iff.2 (legible_of_check h' hk')
    rw [htext, hread'] at hread
    exact (Option.some.inj hread).symm
  · intro text k h
    have hk := ofText?_eq_some_iff.1 h
    exact ⟨ofText?_display_iff.2 hk.1, hk.2⟩

/-- The weights between two pairs of accounts with hyphens next to the arrow. -/
def hyphenated : Constraint :=
  ⟨⟨"p"⟩, .compare .lte (.weightSet ⟨"a-"⟩ ⟨"b"⟩) (.weightSet ⟨"a"⟩ ⟨"-b"⟩)⟩

/-- The two weights keep apart, and a period is read without its plus sign and zeros. -/
theorem texts_unambiguous_hyphenated :
    Limits.standard.check hyphenated = none ∧
      ofText? "weight-set:a-->b" = some (.weightSet ⟨"a-"⟩ ⟨"b"⟩) ∧
      display (.weightSet ⟨"a-"⟩ ⟨"b"⟩) ≠ display (.weightSet ⟨"a"⟩ ⟨"-b"⟩) ∧
      ofText? "operation-count:p@+007" = some (.operationCount ⟨"p"⟩ ⟨7, by decide⟩) ∧
      ofText? "operation-count:p@7" = some (.operationCount ⟨"p"⟩ ⟨7, by decide⟩) := by
  have hcheck : Limits.standard.check hyphenated = none := by decide
  have hone : weightSet ⟨"a-"⟩ ⟨"b"⟩ ∈ hyphenated.referencedFacts :=
    mem_sorted_iff.2 List.mem_cons_self
  have hother : weightSet ⟨"a"⟩ ⟨"-b"⟩ ∈ hyphenated.referencedFacts :=
    mem_sorted_iff.2 (List.mem_cons_of_mem _ List.mem_cons_self)
  have hpadded : ofText? "operation-count:p@+007" =
      some (.operationCount ⟨"p"⟩ ⟨7, by decide⟩) := by decide +kernel
  refine ⟨hcheck, texts_unambiguous.2.1 _ _ hcheck _ hone, fun htext => ?_, hpadded,
    (texts_unambiguous.2.2.2 _ _ hpadded).1⟩
  have heq := texts_unambiguous.2.2.1 _ _ _ _ hcheck hcheck _ hone _ hother htext
  exact absurd heq (by decide)

end FactKey
end Mandate
