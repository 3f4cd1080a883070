/-
**The order of GUIDs is that of their texts.**

GUIDs are compared field by field.  Each field is written in the text with a fixed count of digits,
the most significant first, so its digits compare as its value does, and the fields stand in the text
in the order in which they are compared.  The last field is a string of eight bytes; it is written in
two groups, which makes no difference, and kept as one number, which makes none either.  Sorting
GUIDs therefore is sorting their texts.  The binary form has no such law, since the first three fields
are stored with the least significant byte first.

Main definitions:

* `Guid.lastBytes` — the last field as the bytes that are stored;
* `Guid.textBytes` — the bytes of the text.

Main results:

* `Guid.compare_eq_values` — GUIDs are compared by the numbers in their fields;
* `Guid.compare_eq_fields` — **the last field is compared byte by byte**;
* `Guid.compare_eq_compareLex_textBytes` — **GUIDs compare as their texts**;
* `Guid.map_sort` — **the texts of sorted GUIDs are their texts in order**;
* `Guid.compare_text` — fields, texts and sorted lists together.
-/

import SecurityDescriptor.Proofs.Comparison
import SecurityDescriptor.Proofs.Guid.Layout

set_option relaxedAutoImplicit false
set_option autoImplicit false

namespace SecurityDescriptor

open Comparison

/-! ### Numerals and bytes -/

namespace Numeral

/-- The digits of a numeral are bytes that compare as the values of the digits. -/
theorem isPlaceNotation_fixedHex :
    IsPlaceNotation 16 (fun d => (Nat.digitChar d).toUInt8)
      (fun width n => Text.octets (fixedHex width n)) where
  base_pos := by decide
  spell_zero _ := rfl
  spell_succ width n := by
    have hone : ∀ d ∈ List.range 16,
        String.utf8EncodeChar (Nat.digitChar d) = [(Nat.digitChar d).toUInt8] := by decide
    have hlast := hone (n % 16) (List.mem_range.mpr (Nat.mod_lt n (by decide)))
    rw [fixedHex, Text.octets_append, Text.octets_cons, hlast]
    rfl
  compare_digit {d e} hd he := by
    have hall : ∀ d ∈ List.range 16, ∀ e ∈ List.range 16,
        compare (Nat.digitChar d).toUInt8 (Nat.digitChar e).toUInt8 = compare d e := by decide
    exact hall d (List.mem_range.mpr hd) e (List.mem_range.mpr he)

theorem length_octets_fixedHex (width n : Nat) :
    (Text.octets (fixedHex width n)).length = width :=
  isPlaceNotation_fixedHex.length_spell width n

/-- Numerals of one width compare as texts in the way their values do. -/
theorem compareLex_fixedHex {width m n : Nat} (hm : m < Nat.pow 16 width)
    (hn : n < Nat.pow 16 width) :
    List.compareLex compare (Text.octets (fixedHex width m)) (Text.octets (fixedHex width n))
      = compare m n :=
  isPlaceNotation_fixedHex.compareLex_of_lt hm hn

end Numeral

/-- The bytes of a number, the most significant first. -/
theorem Octets.isPlaceNotation_big : IsPlaceNotation 256 UInt8.ofNat Octets.big where
  base_pos := by decide
  spell_zero _ := rfl
  spell_succ width n := by
    have hlast : UInt8.ofNat n = UInt8.ofNat (n % 256) := by
      apply UInt8.toNat_inj.mp
      simp
    rw [big, little, List.reverse_cons, hlast]
    rfl
  compare_digit {d e} hd he := by
    have hbytes := compare_toNat UInt8.toNat UInt8.lt_iff_toNat_lt UInt8.toNat_inj (.ofNat d)
      (.ofNat e)
    rw [UInt8.toNat_ofNat_of_lt' hd, UInt8.toNat_ofNat_of_lt' he] at hbytes
    exact hbytes

namespace Guid

/-! ### Fields -/

/-- The last field as the bytes that are stored. -/
def lastBytes (g : Guid) : List UInt8 := Octets.big 8 g.data4.toNat

/-- The last field is what its bytes spell. -/
theorem ofFields_lastBytes (g : Guid) : ofFields g.data1 g.data2 g.data3 g.lastBytes = g := by
  rw [ofFields, lastBytes, Octets.bigValue_big_of_lt g.data4.toNat_lt, UInt64.ofNat_toNat]

/-- GUIDs are compared by the numbers in their fields. -/
theorem compare_eq_values (g h : Guid) :
    compare g h = (compare g.data1.toNat h.data1.toNat).then
      ((compare g.data2.toNat h.data2.toNat).then
        ((compare g.data3.toNat h.data3.toNat).then (compare g.data4.toNat h.data4.toNat))) := by
  have hfirst := compare_toNat UInt32.toNat UInt32.lt_iff_toNat_lt UInt32.toNat_inj g.data1 h.data1
  have hsecond := compare_toNat UInt16.toNat UInt16.lt_iff_toNat_lt UInt16.toNat_inj g.data2 h.data2
  have hthird := compare_toNat UInt16.toNat UInt16.lt_iff_toNat_lt UInt16.toNat_inj g.data3 h.data3
  have hfourth := compare_toNat UInt64.toNat UInt64.lt_iff_toNat_lt UInt64.toNat_inj g.data4 h.data4
  rw [← hfirst, ← hsecond, ← hthird, ← hfourth]
  rfl

/-- **The last field is compared byte by byte.** -/
theorem compare_eq_fields (g h : Guid) :
    compare g h = (compare g.data1 h.data1).then ((compare g.data2 h.data2).then
      ((compare g.data3 h.data3).then (List.compareLex compare g.lastBytes h.lastBytes))) := by
  have hwords := compare_toNat UInt64.toNat UInt64.lt_iff_toNat_lt UInt64.toNat_inj g.data4 h.data4
  have hbytes : List.compareLex compare g.lastBytes h.lastBytes
      = compare g.data4.toNat h.data4.toNat :=
    Octets.isPlaceNotation_big.compareLex_of_lt g.data4.toNat_lt h.data4.toNat_lt
  rw [hbytes, ← hwords]
  rfl

/-! ### Texts -/

/-- The bytes of the text. -/
def textBytes (g : Guid) : List UInt8 := (toString g).toByteArray.data.toList

theorem textBytes_eq (g : Guid) : g.textBytes = Text.octets g.render := by
  show (String.ofList g.render).toByteArray.data.toList = Text.octets g.render
  rw [String.toByteArray_ofList, List.utf8Encode, List.toList_data_toByteArray, Text.octets]

/-- The order of texts: the first byte in which they differ decides. -/
def textLE (s t : List UInt8) : Bool := (List.compareLex compare s t).isLE

/-- Up to a hyphen texts are compared by what stands before it, and then by what follows it. -/
theorem compareLex_hyphen {a b : List Char} (h : (Text.octets a).length = (Text.octets b).length)
    (rest rest' : List Char) :
    List.compareLex compare (Text.octets (a ++ '-' :: rest)) (Text.octets (b ++ '-' :: rest'))
      = (List.compareLex compare (Text.octets a) (Text.octets b)).then
          (List.compareLex compare (Text.octets rest) (Text.octets rest')) := by
  have hhyphen : ∀ text, Text.octets ('-' :: text) = '-'.toUInt8 :: Text.octets text :=
    fun _ => rfl
  rw [Text.octets_append, Text.octets_append, compareLex_append _ h, hhyphen, hhyphen,
    List.compareLex_cons_cons, Std.ReflOrd.compare_self, Ordering.eq_then]

/-- The two groups of the last field compare as the field, its upper 16 bits before its lower 48. -/
theorem compareLex_lastGroups (m n : UInt64) :
    (List.compareLex compare (Text.octets (Numeral.fixedHex 4 (m.toNat / 0x1000000000000)))
        (Text.octets (Numeral.fixedHex 4 (n.toNat / 0x1000000000000)))).then
      (List.compareLex compare (Text.octets (Numeral.fixedHex 12 m.toNat))
        (Text.octets (Numeral.fixedHex 12 n.toNat)))
      = compare m.toNat n.toNat := by
  have hupper : ∀ k : UInt64, k.toNat / 0x1000000000000 < Nat.pow 16 4 := by
    intro k
    have hlt : k.toNat < 0x10000000000000000 := k.toNat_lt
    show _ < 0x10000
    omega
  have hlower : ∀ k : UInt64, k.toNat % 0x1000000000000 < Nat.pow 16 12 := by
    intro k
    exact Nat.mod_lt _ (by decide)
  have hmod : ∀ k : UInt64, Numeral.fixedHex 12 k.toNat
      = Numeral.fixedHex 12 (k.toNat % 0x1000000000000) := by
    intro k
    exact (Numeral.fixedHex_mod 12 k.toNat).symm
  rw [compare_div_mod 0x1000000000000, hmod m, hmod n,
    Numeral.compareLex_fixedHex (hupper m) (hupper n),
    Numeral.compareLex_fixedHex (hlower m) (hlower n)]

/-- **GUIDs compare as their texts.** -/
theorem compare_eq_compareLex_textBytes (g h : Guid) :
    compare g h = List.compareLex compare g.textBytes h.textBytes := by
  have hlength : ∀ width m n, (Text.octets (Numeral.fixedHex width m)).length
      = (Text.octets (Numeral.fixedHex width n)).length := by
    intro width m n
    rw [Numeral.length_octets_fixedHex, Numeral.length_octets_fixedHex]
  have hfirst : List.compareLex compare (Text.octets (Numeral.fixedHex 8 g.data1.toNat))
      (Text.octets (Numeral.fixedHex 8 h.data1.toNat)) = compare g.data1.toNat h.data1.toNat :=
    Numeral.compareLex_fixedHex g.data1.toNat_lt h.data1.toNat_lt
  have hsecond : List.compareLex compare (Text.octets (Numeral.fixedHex 4 g.data2.toNat))
      (Text.octets (Numeral.fixedHex 4 h.data2.toNat)) = compare g.data2.toNat h.data2.toNat :=
    Numeral.compareLex_fixedHex g.data2.toNat_lt h.data2.toNat_lt
  have hthird : List.compareLex compare (Text.octets (Numeral.fixedHex 4 g.data3.toNat))
      (Text.octets (Numeral.fixedHex 4 h.data3.toNat)) = compare g.data3.toNat h.data3.toNat :=
    Numeral.compareLex_fixedHex g.data3.toNat_lt h.data3.toNat_lt
  rw [compare_eq_values, textBytes_eq, textBytes_eq, render, render, compareLex_hyphen (hlength ..),
    compareLex_hyphen (hlength ..), compareLex_hyphen (hlength ..), compareLex_hyphen (hlength ..),
    hfirst, hsecond, hthird, compareLex_lastGroups]

/-! ### Sorting -/

theorem isLE_compare_eq (g h : Guid) : (compare g h).isLE = textLE g.textBytes h.textBytes := by
  rw [compare_eq_compareLex_textBytes, textLE]

/-- **The texts of sorted GUIDs are their texts in order.** -/
theorem map_sort (guids : List Guid) :
    (sort guids).map textBytes = (guids.map textBytes).mergeSort textLE := by
  refine List.map_mergeSort ?_
  intro g _ h _
  exact isLE_compare_eq g h

/-- Texts that are sorted ascend. -/
theorem pairwise_mergeSort_textLE (texts : List (List UInt8)) :
    (texts.mergeSort textLE).Pairwise fun s t => textLE s t := by
  have hlists : Std.TransCmp (List.compareLex (compare : UInt8 → UInt8 → Ordering)) :=
    inferInstance
  refine List.pairwise_mergeSort ?_ ?_ texts
  · intro s t u hst htu
    exact hlists.isLE_trans hst htu
  · intro s t
    rw [textLE, textLE, hlists.eq_swap (a := t) (b := s)]
    cases List.compareLex compare s t <;> rfl

/-! ### The order of GUIDs -/

/-- **GUIDs compare as their texts.**  The order compares the first three fields as numbers and then
the last one byte by byte; it is the order of the texts; GUIDs ascend exactly if their texts do; and
the GUIDs that sorting gives are those that it was given, with their texts in ascending order. -/
theorem compare_text :
    (∀ g : Guid, ofFields g.data1 g.data2 g.data3 g.lastBytes = g)
    ∧ (∀ g h : Guid, compare g h = (compare g.data1 h.data1).then
        ((compare g.data2 h.data2).then ((compare g.data3 h.data3).then
          (List.compareLex compare g.lastBytes h.lastBytes))))
    ∧ (∀ g h : Guid, compare g h = List.compareLex compare g.textBytes h.textBytes)
    ∧ (∀ guids : List Guid, guids.Pairwise (fun g h => (compare g h).isLE)
        ↔ (guids.map textBytes).Pairwise fun s t => textLE s t)
    ∧ (∀ guids : List Guid, (sort guids).Perm guids
        ∧ (sort guids).map textBytes = (guids.map textBytes).mergeSort textLE
        ∧ ((sort guids).map textBytes).Pairwise fun s t => textLE s t) := by
  refine ⟨ofFields_lastBytes, compare_eq_fields, compare_eq_compareLex_textBytes, ?_, ?_⟩
  · intro guids
    rw [List.pairwise_map]
    simp only [isLE_compare_eq]
  · intro guids
    refine ⟨List.mergeSort_perm guids _, map_sort guids, ?_⟩
    rw [map_sort]
    exact pairwise_mergeSort_textLE _

/-- The binary form has another order: here the first field of the lesser GUID has the greater last
byte, which is stored first. -/
example :
    let g : Guid := ⟨0x000000FF, 0, 0, 0⟩
    let h : Guid := ⟨0x00000100, 0, 0, 0⟩
    compare g h = .lt ∧ List.compareLex compare g.encode h.encode = .gt := by
  decide

end Guid

end SecurityDescriptor
