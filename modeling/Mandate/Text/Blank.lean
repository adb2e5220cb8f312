/-!
# White space

White space is the Unicode property `White_Space`: twenty-five code points, none of them outside
the basic plane.

Main definitions:

* `isBlank`: membership in the property.
* `trimBlanks`: a text without the white space at its two ends.

Main result:

* `trimBlanks_pad`: padding around a text with no blank at either end is dropped.
-/

namespace Mandate
namespace Text

/-- White space in the sense of Unicode. -/
def isBlank (c : Char) : Bool :=
  let n := c.toNat
  (9 ≤ n && n ≤ 13) || n == 0x20 || n == 0x85 || n == 0xA0 || n == 0x1680 ||
    (0x2000 ≤ n && n ≤ 0x200A) || n == 0x2028 || n == 0x2029 || n == 0x202F || n == 0x205F ||
    n == 0x3000

/-- The text without the white space at its front. -/
def dropBlanks (cs : List Char) : List Char :=
  cs.dropWhile isBlank

/-- The text without the white space at its two ends. -/
def trimBlanks (cs : List Char) : List Char :=
  (dropBlanks (dropBlanks cs).reverse).reverse

theorem dropBlanks_append {pad : List Char} (hpad : ∀ c ∈ pad, isBlank c = true) (cs : List Char) :
    dropBlanks (pad ++ cs) = dropBlanks cs := by
  induction pad with
  | nil => rfl
  | cons c pad ih =>
    have hc : isBlank c = true := hpad c (by simp)
    simpa [dropBlanks, hc] using ih fun d hd => hpad d (by simp [hd])

theorem dropBlanks_of_head {c : Char} (cs : List Char) (hc : isBlank c = false) :
    dropBlanks (c :: cs) = c :: cs := by
  simp [dropBlanks, hc]

theorem dropBlanks_of_none {cs : List Char} (h : ∀ c ∈ cs, isBlank c = false) :
    dropBlanks cs = cs := by
  cases cs with
  | nil => rfl
  | cons c cs => exact dropBlanks_of_head cs (h c (by simp))

/-- Padding around a text without blanks is dropped. -/
theorem trimBlanks_pad {front back cs : List Char} (hf : ∀ c ∈ front, isBlank c = true)
    (hb : ∀ c ∈ back, isBlank c = true) (h : ∀ c ∈ cs, isBlank c = false) :
    trimBlanks (front ++ cs ++ back) = cs := by
  have hback : ∀ c ∈ back.reverse, isBlank c = true := fun c hc => hb c (by simpa using hc)
  unfold trimBlanks
  rw [List.append_assoc, dropBlanks_append hf]
  cases cs with
  | nil =>
    have hnil : dropBlanks back = [] := by
      have h := dropBlanks_append hb []
      rw [List.append_nil] at h
      exact h
    rw [List.nil_append, hnil]
    rfl
  | cons c cs =>
    rw [List.cons_append, dropBlanks_of_head _ (h c (by simp)), ← List.cons_append,
      List.reverse_append, dropBlanks_append hback, dropBlanks_of_none, List.reverse_reverse]
    intro d hd
    exact h d (List.mem_reverse.mp hd)

end Text
end Mandate
