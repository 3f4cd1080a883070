/-
**Plain texts: letters, digits and hyphens.**

The text of an entry is cut at semicolons, a list at parentheses, a descriptor at colons, an
identifier at hyphens.  Cutting finds the pieces again because none of the pieces contains the
character at which it is cut.  Identifiers, GUIDs, numbers and tokens are all plain, and a plain
text contains none of the characters at which entries, lists and descriptors are cut.

Main definitions:

* `Text.IsWord`, `Text.IsPlain` — letters and digits only; hyphens as well.

Main results:

* `Text.IsPlain.not_mem` — **a plain text contains no other character**;
* `Text.IsPlain.columns_eq` — a plain text has as many bytes as characters;
* `Text.splitOn_eq_cons_iff` — **a text is cut into pieces exactly if it is the pieces joined**, and
  `Text.not_mem_of_length_splitOn` for a text that stays whole;
* `Text.isPlain_of_splitOn` — words joined by hyphens are plain;
* `Numeral.isWord_of_isNumeral` — numerals are words.
-/

import SecurityDescriptor.Proofs.Text.Numeral
import SecurityDescriptor.Text.Width

set_option relaxedAutoImplicit false
set_option autoImplicit false

namespace SecurityDescriptor

namespace Text

/-- Letters and digits only. -/
def IsWord (text : List Char) : Prop := ∀ c ∈ text, c.isAlphanum = true

/-- Letters, digits and hyphens only. -/
def IsPlain (text : List Char) : Prop := ∀ c ∈ text, c.isAlphanum = true ∨ c = '-'

instance (text : List Char) : Decidable (IsWord text) :=
  List.decidableBAll (fun c : Char => c.isAlphanum = true) text

instance (text : List Char) : Decidable (IsPlain text) :=
  List.decidableBAll (fun c : Char => c.isAlphanum = true ∨ c = '-') text

theorem IsWord.isPlain {text : List Char} (h : IsWord text) : IsPlain text :=
  fun c hc => .inl (h c hc)

theorem isPlain_nil : IsPlain [] := fun _ h => (List.not_mem_nil h).elim

theorem isPlain_cons {c : Char} {text : List Char} :
    IsPlain (c :: text) ↔ (c.isAlphanum = true ∨ c = '-') ∧ IsPlain text := by
  simp only [IsPlain, List.mem_cons, forall_eq_or_imp]

theorem isPlain_append {a b : List Char} : IsPlain (a ++ b) ↔ IsPlain a ∧ IsPlain b := by
  simp only [IsPlain, List.mem_append, or_imp, forall_and]

/-- **A plain text contains no other character.** -/
theorem IsPlain.not_mem {text : List Char} (h : IsPlain text) {c : Char}
    (hc : (c.isAlphanum || c == '-') = false) : c ∉ text := by
  intro hmem
  rw [Bool.or_eq_false_iff, beq_eq_false_iff_ne] at hc
  rcases h c hmem with halnum | rfl
  · rw [hc.1] at halnum
    cases halnum
  · exact hc.2 rfl

theorem IsWord.not_mem {text : List Char} (h : IsWord text) {c : Char}
    (hc : c.isAlphanum = false) : c ∉ text := by
  intro hmem
  rw [h c hmem] at hc
  cases hc

theorem utf8Size_of_isAlphanum {c : Char} (h : c.isAlphanum = true) : c.utf8Size = 1 := by
  rw [Numeral.isAlphanum_iff] at h
  rw [Char.utf8Size_eq_one_iff, UInt32.le_iff_toNat_le]
  simp only [Char.le_def, UInt32.le_iff_toNat_le] at h
  have hlast : c.val.toNat ≤ 'z'.val.toNat := by
    rcases h with (h | h) | h
    · exact Nat.le_trans h.2 (by decide)
    · exact h.2
    · exact Nat.le_trans h.2 (by decide)
  exact Nat.le_trans hlast (by decide)

/-- A plain text has as many bytes as characters. -/
theorem IsPlain.columns_eq {text : List Char} (h : IsPlain text) : columns text = text := by
  induction text with
  | nil => rfl
  | cons c text ih =>
      obtain ⟨hc, htext⟩ := isPlain_cons.1 h
      have hsize : c.utf8Size = 1 := by
        rcases hc with hc | rfl
        · exact utf8Size_of_isAlphanum hc
        · rfl
      rw [columns_cons, hsize, ih htext]
      rfl

/-! ### Cutting -/

section Cutting

variable {sep : Char}

theorem intercalate_cons (first : List Char) (pieces : List (List Char)) :
    [sep].intercalate (first :: pieces) = first ++ pieces.flatMap (sep :: ·) := by
  induction pieces generalizing first with
  | nil => simp
  | cons piece pieces ih =>
      rw [List.intercalate_cons_of_ne_nil (List.cons_ne_nil _ _), ih]
      simp

/-- **A text is cut into pieces exactly if it is the pieces joined.** -/
theorem splitOn_eq_cons_iff {text first : List Char} {pieces : List (List Char)}
    (hfree : ∀ piece ∈ first :: pieces, sep ∉ piece) :
    text.splitOn sep = first :: pieces ↔ text = first ++ pieces.flatMap (sep :: ·) := by
  rw [← intercalate_cons]
  constructor
  · intro h
    rw [← h, List.intercalate_splitOn]
  · rintro rfl
    exact List.splitOn_intercalate sep hfree (List.cons_ne_nil _ _)

/-- The pieces of a text with a separator behind each are the text with a separator behind it. -/
theorem flatMap_splitOn (text : List Char) :
    (text.splitOn sep).flatMap (· ++ [sep]) = text ++ [sep] := by
  have hjoin : [sep].intercalate (text.splitOn sep) = text := List.intercalate_splitOn sep
  obtain ⟨first, pieces, hpieces⟩ := List.exists_cons_of_ne_nil (List.splitOn_ne_nil sep text)
  rw [hpieces, intercalate_cons] at hjoin
  rw [hpieces, ← hjoin]
  clear hjoin hpieces
  induction pieces generalizing first with
  | nil => simp
  | cons piece pieces ih =>
      rw [List.flatMap_cons, ih piece]
      simp

/-- A piece of a text is no longer than the text. -/
theorem width_le_of_mem_splitOn {text piece : List Char} (h : piece ∈ text.splitOn sep) :
    width piece ≤ width text := by
  obtain ⟨front, back, hpieces⟩ := List.append_of_mem h
  have hwidth := congrArg width (@flatMap_splitOn sep text)
  rw [hpieces, List.flatMap_append, List.flatMap_cons] at hwidth
  simp only [width_append, width_cons, width_nil] at hwidth
  omega

theorem length_splitOn_pos (text : List Char) : 0 < (text.splitOn sep).length :=
  List.length_pos_iff.mpr (List.splitOn_ne_nil sep text)

/-- A text that stays whole has nothing to be cut at. -/
theorem not_mem_of_length_splitOn {text : List Char} (h : (text.splitOn sep).length = 1) :
    sep ∉ text := by
  intro hmem
  obtain ⟨front, back, rfl⟩ := List.append_of_mem hmem
  have hfront := @length_splitOn_pos sep front
  have hback := @length_splitOn_pos sep back
  rw [List.splitOn_append_cons_self, List.length_append] at h
  omega

end Cutting

/-- Words with hyphens between them are plain. -/
theorem isPlain_of_splitOn {text : List Char} (h : ∀ word ∈ text.splitOn '-', IsWord word) :
    IsPlain text := by
  have hjoin : ['-'].intercalate (text.splitOn '-') = text := List.intercalate_splitOn '-'
  rw [← hjoin]
  generalize text.splitOn '-' = words at h
  induction words with
  | nil => exact isPlain_nil
  | cons word words ih =>
      have hword : IsPlain word := (h word (List.mem_cons_self ..)).isPlain
      have hrest : IsPlain (['-'].intercalate words) :=
        ih fun other hother => h other (List.mem_cons_of_mem _ hother)
      by_cases hwords : words = []
      · subst hwords
        rw [List.intercalate_singleton]
        exact hword
      · rw [List.intercalate_cons_of_ne_nil hwords, isPlain_append, isPlain_append]
        exact ⟨⟨hword, by decide⟩, hrest⟩

end Text

namespace Numeral

theorem isWord_of_isNumeral {base : Nat} {text : List Char} (h : IsNumeral base text) :
    Text.IsWord text :=
  fun c hc => isAlphanum_of_digitValue? (h c hc)

theorem isWord_decimal (n : Nat) : Text.IsWord (decimal n) :=
  isWord_of_isNumeral (value_toDigits (by decide) (by decide) n).1

theorem isWord_hex (n : Nat) : Text.IsWord (hex n) :=
  isWord_of_isNumeral (value_toDigits (by decide) (by decide) n).1

theorem isWord_fixedHex (width n : Nat) : Text.IsWord (fixedHex width n) :=
  isWord_of_isNumeral (value_fixedHex width n).1

/-- What is read as a numeral is a word. -/
theorem isWord_of_read? {base limit n : Nat} (hbase : 0 < base) {text : List Char}
    (h : read? base limit text = some n) : Text.IsWord text :=
  isWord_of_isNumeral ((read?_eq_some_iff hbase).1 h).2.1

end Numeral

end SecurityDescriptor
