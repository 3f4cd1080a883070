/-
Positions in texts.

Between any two characters of a text there is a position, and a text is cut at a position into what
stands before it and what stands behind it.  The bytes of a text are those of its characters.  A
character of more than one byte is nowhere mistaken for one of a single byte, since all its bytes
are greater; so what is looked for byte by byte and what is looked for character by character is
found in the same places.

Main definitions:

* `Text.Bears` — a character and one of its bytes.

Main results:

* `Text.cut?_eq_some_iff` — **a text is cut exactly where one character ends**;
* `Checked.cut_append`, `Checked.within_append` — cuts between characters do not trap;
* `Text.find?_append` — the position of the first occurrence;
* `Text.octets_cases` — **the bytes of a character**: itself, or great ones;
* `Text.toNat_lt_of_isAlpha` — letters are small characters;
* `Text.bears_octets` — **every byte is of the character in its column**.
-/

import Mathlib.Data.List.Forall2
import Mathlib.Data.List.TakeWhile
import SecurityDescriptor.Text.Slice

set_option relaxedAutoImplicit false
set_option autoImplicit false

namespace SecurityDescriptor

namespace Text

/-! ### Cuts -/

theorem cut?_cons {n : Nat} (hn : 0 < n) (c : Char) (text : List Char) :
    cut? n (c :: text) = if c.utf8Size ≤ n then
      (cut? (n - c.utf8Size) text).map fun (front, rest) => (c :: front, rest) else none := by
  obtain ⟨m, rfl⟩ := Nat.exists_eq_add_one_of_ne_zero (Nat.ne_of_gt hn)
  rw [cut?]

/-- There is a position behind the characters that a text begins with. -/
theorem cut?_append (a b : List Char) : cut? (width a) (a ++ b) = some (a, b) := by
  induction a with
  | nil => rw [width_nil, List.nil_append, cut?.eq_def]
  | cons c a ih =>
      have hc : 0 < c.utf8Size := c.utf8Size_pos
      rw [List.cons_append, width_cons, cut?_cons (by omega), if_pos (by omega),
        Nat.add_sub_cancel_left, ih]
      rfl

/-- **A text is cut exactly where one character ends.** -/
theorem cut?_eq_some_iff {n : Nat} {text front rest : List Char} :
    cut? n text = some (front, rest) ↔ text = front ++ rest ∧ n = width front := by
  constructor
  · intro h
    induction text generalizing n front with
    | nil =>
        cases n with
        | zero =>
            cases h
            exact ⟨rfl, rfl⟩
        | succ n => cases h
    | cons c text ih =>
        cases n with
        | zero =>
            cases h
            exact ⟨rfl, rfl⟩
        | succ n =>
            rw [cut?_cons (Nat.succ_pos n)] at h
            split at h
            · rename_i hfits
              obtain ⟨⟨before, behind⟩, hcut, heq⟩ := Option.map_eq_some_iff.mp h
              cases heq
              obtain ⟨rfl, hwidth⟩ := ih hcut
              refine ⟨rfl, ?_⟩
              rw [width_cons]
              omega
            · cases h
  · rintro ⟨rfl, rfl⟩
    exact cut?_append front rest

theorem width_reverse (text : List Char) : width text.reverse = width text := by
  induction text with
  | nil => rfl
  | cons c text ih =>
      rw [List.reverse_cons, width_append, ih, width_cons, width_cons, width_nil]
      omega

theorem width_eq_zero_iff {text : List Char} : width text = 0 ↔ text = [] := by
  constructor
  · intro h
    have hlength := length_le_width text
    exact List.eq_nil_of_length_eq_zero (by omega)
  · rintro rfl
    rfl

/-! ### Searches -/

theorem bne_of_not_mem {c : Char} {text : List Char} (h : c ∉ text) :
    ∀ d ∈ text, (d != c) = true := by
  intro d hd
  rw [bne_iff_ne]
  rintro rfl
  exact h hd

theorem takeWhile_append {c : Char} {front : List Char} (h : c ∉ front) (back : List Char) :
    (front ++ c :: back).takeWhile (· != c) = front := by
  rw [List.takeWhile_append_of_pos (bne_of_not_mem h), List.takeWhile_cons_of_neg (by simp),
    List.append_nil]

/-- The first occurrence of a character stands behind what is free of it. -/
theorem find?_append {c : Char} {front : List Char} (h : c ∉ front) (back : List Char) :
    find? c (front ++ c :: back) = some (width front) := by
  rw [find?, if_pos (by simp), takeWhile_append h]

theorem find?_eq_none {c : Char} {text : List Char} (h : c ∉ text) : find? c text = none := if_neg h

/-- A text that lacks a character is left whole, as if the character stood at its end. -/
theorem getD_find? (c : Char) (text : List Char) :
    (find? c text).getD (width text) = width (text.takeWhile (· != c)) := by
  by_cases hmem : c ∈ text
  · rw [find?, if_pos hmem]
    rfl
  · rw [find?_eq_none hmem, List.takeWhile_eq_self_iff.mpr (bne_of_not_mem hmem)]
    rfl

/-- A text that has a character is taken apart at its first occurrence. -/
theorem exists_split_of_mem {c : Char} {text : List Char} (h : c ∈ text) :
    ∃ front back, text = front ++ c :: back ∧ c ∉ front := by
  obtain ⟨front, back, rfl, hfront⟩ := List.eq_append_cons_of_mem h
  exact ⟨front, back, rfl, hfront⟩

/-! ### Bytes -/

@[simp] theorem octets_nil : octets [] = [] := rfl

@[simp] theorem octets_cons (c : Char) (text : List Char) :
    octets (c :: text) = String.utf8EncodeChar c ++ octets text := rfl

@[simp] theorem octets_append (a b : List Char) : octets (a ++ b) = octets a ++ octets b := by
  simp [octets]

@[simp] theorem length_octets (text : List Char) : (octets text).length = width text := by
  induction text with
  | nil => rfl
  | cons c text ih =>
      rw [octets_cons, List.length_append, String.length_utf8EncodeChar, ih, width_cons]

theorem utf8Size_eq_one_iff_lt {c : Char} : c.utf8Size = 1 ↔ c.toNat < 128 := by
  rw [Char.utf8Size_eq_one_iff, UInt32.le_iff_toNat_le]
  exact Nat.lt_succ_iff.symm

/-- The bytes of a character that needs more than one of them are all great. -/
theorem le_of_mem_utf8EncodeChar {c : Char} (h : 128 ≤ c.toNat) :
    ∀ b ∈ String.utf8EncodeChar c, 128 ≤ b.toNat := by
  have hgreat : ∀ n, 128 ≤ n → n < 256 → 128 ≤ (UInt8.ofNat n).toNat := by
    intro n hle hlt
    rwa [UInt8.toNat_ofNat_of_lt' hlt]
  have hbig : ¬c.val.toNat ≤ 127 := Nat.not_le.mpr h
  -- Each byte is a piece of the number of the character behind bits that are set.
  rw [String.utf8EncodeChar, if_neg hbig]
  split
  · simp only [List.mem_cons, List.not_mem_nil, or_false, forall_eq_or_imp, forall_eq]
    exact ⟨hgreat _ (by omega) (by omega), hgreat _ (by omega) (by omega)⟩
  · split
    · simp only [List.mem_cons, List.not_mem_nil, or_false, forall_eq_or_imp, forall_eq]
      exact ⟨hgreat _ (by omega) (by omega), hgreat _ (by omega) (by omega),
        hgreat _ (by omega) (by omega)⟩
    · simp only [List.mem_cons, List.not_mem_nil, or_false, forall_eq_or_imp, forall_eq]
      exact ⟨hgreat _ (by omega) (by omega), hgreat _ (by omega) (by omega),
        hgreat _ (by omega) (by omega), hgreat _ (by omega) (by omega)⟩

/-- **The bytes of a character**: one that is the character, or several that are all great. -/
theorem octets_cases (c : Char) :
    (c.toNat < 128 ∧ String.utf8EncodeChar c = [c.toUInt8])
    ∨ (128 ≤ c.toNat ∧ ∀ b ∈ String.utf8EncodeChar c, 128 ≤ b.toNat) := by
  rcases Nat.lt_or_ge c.toNat 128 with hlt | hge
  · exact .inl ⟨hlt, String.utf8EncodeChar_eq_singleton (utf8Size_eq_one_iff_lt.mpr hlt)⟩
  · exact .inr ⟨hge, le_of_mem_utf8EncodeChar hge⟩

/-! ### Letters -/

/-- A letter is a small character. -/
theorem toNat_lt_of_isAlpha {c : Char} (h : c.isAlpha = true) : c.toNat < 128 := by
  have hcase : (c.isUpper || c.isLower) = true := h
  have hlast : c.val ≤ 'z'.val := by
    rcases Bool.or_eq_true_iff.mp hcase with hupper | hlower
    · have hbounds : decide (c.val ≥ 'A'.val ∧ c.val ≤ 'Z'.val) = true := hupper
      exact UInt32.le_trans (of_decide_eq_true hbounds).2 (by decide)
    · have hbounds : (decide (c.val ≥ 'a'.val) && decide (c.val ≤ 'z'.val)) = true := hlower
      exact of_decide_eq_true (Bool.and_eq_true_iff.mp hbounds).2
  exact Nat.lt_of_le_of_lt (UInt32.le_iff_toNat_le.mp hlast) (by decide)

theorem utf8Size_of_isAlpha {c : Char} (h : c.isAlpha = true) : c.utf8Size = 1 :=
  utf8Size_eq_one_iff_lt.mpr (toNat_lt_of_isAlpha h)

theorem isAlpha_eq_false {c : Char} (h : 128 ≤ c.toNat) : c.isAlpha = false := by
  rw [Bool.eq_false_iff]
  intro halpha
  have hlt := toNat_lt_of_isAlpha halpha
  omega

/-! ### Bytes and columns -/

theorem mem_columns {c : Char} {text : List Char} (h : c ∈ text) : c ∈ columns text :=
  List.mem_flatMap.mpr ⟨c, h, List.mem_replicate.mpr ⟨Nat.ne_of_gt c.utf8Size_pos, rfl⟩⟩

/-- **The byte is of the character**: it is the character, or both are great. -/
def Bears (c : Char) (b : UInt8) : Prop := c = Char.ofUInt8 b ∨ 128 ≤ c.toNat ∧ 128 ≤ b.toNat

theorem toNat_ofUInt8 (b : UInt8) : (Char.ofUInt8 b).toNat = b.toNat := UInt8.toNat_toUInt32 b

theorem toNat_toUInt8 {c : Char} (h : c.toNat < 128) : c.toUInt8.toNat = c.toNat := by
  rw [Char.toUInt8, UInt32.toNat_toUInt8]
  exact Nat.mod_eq_of_lt (Nat.lt_trans h (by decide))

theorem ofUInt8_toUInt8 {c : Char} (h : c.toNat < 128) : Char.ofUInt8 c.toUInt8 = c := by
  have htoNat : (Char.ofUInt8 c.toUInt8).toNat = c.toNat := by
    rw [toNat_ofUInt8, toNat_toUInt8 h]
  exact Char.ext (UInt32.toNat_inj.mp htoNat)

/-- What is the same for all great characters is found out from a byte. -/
theorem Bears.congr {β : Type} {f : Char → β} {k : β} (hf : ∀ c : Char, 128 ≤ c.toNat → f c = k)
    {c : Char} {b : UInt8} (h : Bears c b) : f c = f (Char.ofUInt8 b) := by
  rcases h with rfl | ⟨hc, hb⟩
  · rfl
  · rw [hf c hc, hf _ (by rwa [toNat_ofUInt8])]

/-- Small characters are told apart by their bytes. -/
theorem Bears.eq_iff {c d : Char} {b : UInt8} (h : Bears c b) (hd : d.toNat < 128) :
    c = d ↔ b = d.toUInt8 := by
  constructor
  · rintro rfl
    rcases h with h | ⟨hc, -⟩
    · apply UInt8.toNat_inj.mp
      rw [toNat_toUInt8 hd, h, toNat_ofUInt8]
    · omega
  · rintro rfl
    rcases h with h | ⟨-, hb⟩
    · rw [h, ofUInt8_toUInt8 hd]
    · rw [toNat_toUInt8 hd] at hb
      omega

/-- The bytes of a character are of this character. -/
theorem bears_of_mem {c : Char} {b : UInt8} (h : b ∈ String.utf8EncodeChar c) : Bears c b := by
  rcases octets_cases c with ⟨hc, hbytes⟩ | ⟨hc, hbytes⟩
  · rw [hbytes, List.mem_singleton] at h
    rw [h]
    exact .inl (ofUInt8_toUInt8 hc).symm
  · exact .inr ⟨hc, hbytes b h⟩

/-- **Every byte of a text is of the character in its column.** -/
theorem bears_octets (text : List Char) : List.Forall₂ Bears (columns text) (octets text) := by
  have hchar : ∀ {c : Char} {bytes : List UInt8}, (∀ b ∈ bytes, Bears c b) →
      List.Forall₂ Bears (List.replicate bytes.length c) bytes := by
    intro c bytes hbytes
    induction bytes with
    | nil => exact .nil
    | cons b bytes ih =>
        obtain ⟨hb, hbytes⟩ := List.forall_mem_cons.mp hbytes
        exact .cons hb (ih hbytes)
  induction text with
  | nil => exact .nil
  | cons c text ih =>
      rw [columns_cons, octets_cons, ← String.length_utf8EncodeChar]
      exact List.rel_append (hchar fun _ => bears_of_mem) ih

end Text

/-! ### Cuts that do not trap -/

namespace Checked

theorem cut_append (a b : List Char) : cut (a ++ b) (Text.width a) = pure (a, b) := by
  rw [cut, Text.cut?_append]

/-- What stands before the first occurrence of a character is cut off there. -/
theorem cut_find? (c : Char) (text : List Char) :
    cut text ((Text.find? c text).getD (Text.width text))
      = pure (text.takeWhile (· != c), text.dropWhile (· != c)) := by
  have hcut := cut_append (text.takeWhile (· != c)) (text.dropWhile (· != c))
  rwa [List.takeWhile_append_dropWhile, ← Text.getD_find?] at hcut

theorem behind_append (a b : List Char) : behind (a ++ b) (Text.width a) = pure b := by
  rw [behind, cut_append, pure_bind]

theorem before_append (a b : List Char) : before (a ++ b) (Text.width a) = pure a := by
  rw [before, cut_append, pure_bind]

theorem within_append (a b c : List Char) :
    within (a ++ b ++ c) (Text.width a) (Text.width (a ++ b)) = pure b := by
  rw [within, before_append, pure_bind, behind_append]

end Checked

end SecurityDescriptor
