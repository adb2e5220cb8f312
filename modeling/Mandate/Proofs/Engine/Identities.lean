import Mandate.Proofs.Engine.Collision
import Mandate.Proofs.Expr.RoundTrip

/-!
# What an identity tells

The document of a constraint can be read back when the bound on its depth is lifted, so no other
constraint has the same canonical text.  An identity shows less: the first characters of the
permission, and the first bytes of the hash of that text.  Two constraints share it only if their
texts are the same, or if the hashes of two different texts begin with the same bytes.

Main results:

- Theorems `Formula.toJson_inj`, `Constraint.toJson_inj`: no two constraints have one document.
- Theorem `Constraint.canonicalText_inj`: no two constraints have one text.
- Theorem `ConstraintId.derive_eq_iff`: when two identities agree.
- Theorem `ConstraintId.content_of_derive`: what equal identities say about the constraints.
-/

namespace Mandate

/-! ## Canonical texts -/

/-- The document of a formula tells the formula, however deep it is. -/
theorem Formula.toJson_inj {f g : Formula} (h : f.toJson = g.toJson) : f = g := by
  have hf := ofJsonWithin_toJson true (Nat.le_max_left f.depth g.depth)
  have hg := ofJsonWithin_toJson true (Nat.le_max_right f.depth g.depth)
  rw [h, hg, Except.ok.injEq] at hf
  exact hf.symm

namespace Constraint

theorem toJson_inj {c d : Constraint} (h : c.toJson = d.toJson) : c = d := by
  cases c
  cases d
  simp only [toJson, Json.object.injEq, List.cons.injEq, Prod.mk.injEq, Json.text.injEq, true_and,
    and_true] at h
  rw [Constraint.mk.injEq]
  exact ⟨PermId.ext h.1, Formula.toJson_inj h.2⟩

/-- The canonical text of a constraint tells the constraint. -/
theorem canonicalText_inj {c d : Constraint} (h : c.canonicalText = d.canonicalText) : c = d := by
  have hread : Json.read d.canonicalText = some c.toJson :=
    h ▸ Json.read_print c.exact_toJson
  rw [canonicalText, Json.read_print d.exact_toJson, Option.some.injEq] at hread
  exact toJson_inj hread.symm

end Constraint

/-! ## Identities -/

namespace ConstraintId

/-- The hexadecimal digits are sixteen characters. -/
theorem digitChar_inj {m n : Nat} (hm : m < 16) (hn : n < 16)
    (h : Nat.digitChar m = Nat.digitChar n) : m = n := by
  have hall : ∀ a b : Fin 16, Nat.digitChar a = Nat.digitChar b → a = b := by decide
  exact congrArg Fin.val (hall ⟨m, hm⟩ ⟨n, hn⟩ h)

/-- Bytes are known from their digits. -/
theorem hexText_inj {bytes bytes' : List UInt8} (h : hexText bytes = hexText bytes') :
    bytes = bytes' := by
  induction bytes generalizing bytes' with
  | nil =>
    cases bytes' with
    | nil => rfl
    | cons b' rest' => cases h
  | cons b rest ih =>
    cases bytes' with
    | nil => cases h
    | cons b' rest' =>
      simp only [hexText, List.flatMap_cons, List.cons_append, List.nil_append,
        List.cons.injEq] at h
      rcases h with ⟨hhigh, hlow, hrest⟩
      have hb : b.toNat < 256 := b.toNat_lt
      have hb' : b'.toNat < 256 := b'.toNat_lt
      have hquotients := digitChar_inj (by omega) (by omega) hhigh
      have hremainders := digitChar_inj (by omega) (by omega) hlow
      have hsame : b = b' := UInt8.toNat_inj.1 (by omega)
      rw [hsame, ih hrest]

theorem length_fingerprint (c : Constraint) : (fingerprint c).length = hashLength := by
  simp [fingerprint, hashLength, Sha256.length_digest]

theorem length_hexText (bytes : List UInt8) : (hexText bytes).length = 2 * bytes.length := by
  induction bytes with
  | nil => rfl
  | cons b rest ih =>
    simp only [hexText, List.flatMap_cons, List.length_append, List.length_cons,
      List.length_nil] at ih ⊢
    omega

theorem toList_derive (c : Constraint) :
    (derive c).text.toList = "constraint_".toList ++
      (c.permission.text.toList.take permissionLength ++ ('_' :: hexText (fingerprint c))) := by
  simp [derive]

/-- Two identities agree if and only if all that they show of the permissions and of the hashes
agrees. -/
theorem derive_eq_iff {c d : Constraint} :
    derive c = derive d ↔
      c.permission.text.toList.take permissionLength =
          d.permission.text.toList.take permissionLength ∧
        fingerprint c = fingerprint d := by
  constructor
  · intro h
    have htexts := congrArg (fun id => id.text.toList) h
    simp only [toList_derive, List.append_cancel_left_eq] at htexts
    -- the digits are equally many, so both texts are cut at the same place
    have hlengths : ('_' :: hexText (fingerprint c)).length =
        ('_' :: hexText (fingerprint d)).length := by
      simp only [List.length_cons, length_hexText, length_fingerprint]
    rcases List.append_inj' htexts hlengths with ⟨hpermission, hdigits⟩
    rw [List.cons.injEq] at hdigits
    exact ⟨hpermission, hexText_inj hdigits.2⟩
  · rintro ⟨hpermission, hhash⟩
    rw [derive, derive, hpermission, hhash]

/-- No two constraints have the same canonical text, whatever their depth and their names.  So
constraints that share their identity are the same, or the hashes of their texts, which differ,
begin with the same bytes. -/
theorem content_of_derive (c d : Constraint) :
    (c.canonicalText = d.canonicalText → c = d) ∧
      (derive c = derive d → c = d ∨ c.canonicalText ≠ d.canonicalText ∧
        (Sha256.digest c.canonicalText.toUTF8.data.toList).take hashLength =
          (Sha256.digest d.canonicalText.toUTF8.data.toList).take hashLength) := by
  refine ⟨Constraint.canonicalText_inj, fun hid => ?_⟩
  rcases eq_or_ne c d with hsame | hdiffer
  · exact Or.inl hsame
  · have htexts : c.canonicalText ≠ d.canonicalText := fun h =>
      hdiffer (Constraint.canonicalText_inj h)
    exact Or.inr ⟨htexts, (derive_eq_iff.1 hid).2⟩

/-- The two signers differ and share their identity, so the hashes of their texts do begin with the
same bytes. -/
theorem content_of_derive_firstSigner :
    Engine.firstSigner.canonicalText ≠ Engine.secondSigner.canonicalText ∧
      derive Engine.firstSigner = derive Engine.secondSigner ∧
      (Sha256.digest Engine.firstSigner.canonicalText.toUTF8.data.toList).take hashLength =
        (Sha256.digest Engine.secondSigner.canonicalText.toUTF8.data.toList).take hashLength := by
  have hdiffer : Engine.firstSigner ≠ Engine.secondSigner := by decide
  have hcontent := content_of_derive Engine.firstSigner Engine.secondSigner
  refine ⟨fun htexts => hdiffer (hcontent.1 htexts), Engine.derive_firstSigner_eq, ?_⟩
  rcases hcontent.2 Engine.derive_firstSigner_eq with hsame | hcollide
  · exact absurd hsame hdiffer
  · exact hcollide.2

end ConstraintId
end Mandate
