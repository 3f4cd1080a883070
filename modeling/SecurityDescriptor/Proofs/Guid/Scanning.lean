/-
The program that reads GUIDs from text by position, against the reader.

The program decodes the five groups of digits into sixteen bytes, one group behind the other, and
reads the fields from these; the reader reads a number from each group.  Both fail at the first group
that is not made of digits.

Main definitions:

* `Guid.spelledGroup` — the bytes that a group of digits spells;
* `Guid.layout` — where the groups start and how many bytes they spell.

Main results:

* `Guid.hasShape_iff` — the shape of a text is the same in bytes and in columns;
* `Guid.foldlM_scanGroup_eq` — **groups are decoded one behind the other**;
* `Guid.scan_eq` — **the program comes to what the reader reads** and never traps, if its decoder
  decodes exactly the pairs of digits.
-/

import Mathlib.Algebra.GroupWithZero.Nat
import SecurityDescriptor.Proofs.Outcome
import SecurityDescriptor.Proofs.Text.HexPairs
import SecurityDescriptor.Scanning

set_option relaxedAutoImplicit false
set_option autoImplicit false

namespace SecurityDescriptor

open Checked

namespace Guid

/-! ### The shape -/

/-- **The shape of a text is the same in bytes and in columns.** -/
theorem hasShape_iff {text : List Char} :
    hasShape text = true ↔ (Text.octets text).length = 36 ∧
      ∀ i ∈ hyphenColumns, (Text.octets text)[i]? = some '-'.toUInt8 := by
  rw [hasShape, Bool.and_eq_true, beq_iff_eq, Text.length_columns, Text.length_octets,
    List.all_eq_true]
  refine and_congr_right fun hwidth => forall₂_congr fun i hi => ?_
  have hinside : i < Text.width text := by
    have hall : ∀ i ∈ hyphenColumns, i < 36 := by decide
    rw [hwidth]
    exact hall i hi
  have hcolumn : i < (Text.columns text).length := Text.length_columns text ▸ hinside
  have hbyte : i < (Text.octets text).length := Text.length_octets text ▸ hinside
  have hbears := (List.forall₂_iff_get.mp (Text.bears_octets text)).2 i hcolumn hbyte
  rw [beq_iff_eq, List.getElem?_eq_getElem hcolumn, List.getElem?_eq_getElem hbyte, Option.some_inj,
    Option.some_inj]
  exact hbears.eq_iff (by decide)

theorem anyM_byte_eq {bytes : List UInt8} {b : UInt8} {indices : List Nat}
    (h : ∀ i ∈ indices, i < bytes.length) :
    indices.anyM (fun i => do return (← byte bytes i) != b)
      = pure (!indices.all fun i => bytes[i]? == some b) := by
  induction indices with
  | nil => rfl
  | cons i indices ih =>
      obtain ⟨hi, hindices⟩ := List.forall_mem_cons.mp h
      have hbyte : byte bytes i = pure bytes[i] := byte_eq (List.getElem?_eq_getElem hi)
      have hsame : (some bytes[i] == some b) = (bytes[i] == b) := rfl
      rw [List.anyM, hbyte, pure_bind, pure_bind, ih hindices, List.all_cons,
        List.getElem?_eq_getElem hi, hsame, Bool.not_and, bne]
      cases bytes[i] == b <;> rfl

theorem isMisshapen_eq (text : List Char) :
    isMisshapen (Text.octets text) = pure (!hasShape text) := by
  rw [isMisshapen]
  by_cases hlength : (Text.octets text).length = 36
  · have hinside : ∀ i ∈ hyphenColumns, i < (Text.octets text).length := by
      rw [hlength]
      decide
    rw [if_neg (not_not.mpr hlength), anyM_byte_eq hinside]
    congr 2
    rw [Bool.eq_iff_iff, hasShape_iff, List.all_eq_true]
    simp only [hlength, true_and, beq_iff_eq]
  · have hshape : hasShape text = false := by
      rw [← Bool.not_eq_true, hasShape_iff]
      exact fun h => hlength h.1
    rw [if_pos hlength, hshape]
    rfl

/-! ### The groups -/

/-- The bytes that a group of digits spells, `width` of them, from column `start` on. -/
def spelledGroup (bytes : List UInt8) (start width : Nat) : Except Error (List UInt8) :=
  match HexPairs.bytes? ((bytes.drop start).take (2 * width)) with
  | some piece => .ok piece
  | none => .error (.entry .guidDigit start)

theorem length_of_spelledGroup {bytes piece : List UInt8} {start width : Nat}
    (hstop : start + 2 * width ≤ bytes.length) (h : spelledGroup bytes start width = .ok piece) :
    piece.length = width := by
  unfold spelledGroup at h
  split at h
  · rename_i hbytes
    cases h
    have hlength := (HexPairs.bytes?_eq_some_iff.mp hbytes).length
    rw [List.length_take, List.length_drop] at hlength
    omega
  · cases h

/-- The reader reads the number that the bytes make up. -/
theorem parseGroup_eq {text : List Char} {start width : Nat} (hpos : 0 < width)
    (hstop : start + 2 * width ≤ Text.width text) :
    parseGroup (Text.columns text) start (2 * width)
      = (spelledGroup (Text.octets text) start width).map Octets.bigValue := by
  have hbears := List.forall₂_take (2 * width) (List.forall₂_drop start (Text.bears_octets text))
  have hlength : ((Text.octets text).drop start |>.take (2 * width)).length = 2 * width := by
    rw [List.length_take, List.length_drop, Text.length_octets]
    omega
  rw [parseGroup, HexPairs.read?_eq hpos hbears hlength, spelledGroup]
  cases HexPairs.bytes? ((Text.octets text).drop start |>.take (2 * width)) <;> rfl

variable {decode : HexDecoder}

/-- A group is decoded into the place behind those that were decoded. -/
theorem scanGroup_eq (hdecode : decode.DecodesPairs) {bytes front : List UInt8}
    {start width more : Nat} (hstop : start + 2 * width ≤ bytes.length)
    (hroom : front.length + (width + more) = size) :
    scanGroup decode bytes (front ++ List.replicate (width + more) 0)
        ⟨start, start + 2 * width, front.length⟩
      = settled ((spelledGroup bytes start width).map fun piece =>
          front ++ piece ++ List.replicate more 0) := by
  have hsize : size < wordLimit := by decide
  have hdigits : between bytes start (start + 2 * width)
      = pure ((bytes.drop start).take (2 * width)) := by
    rw [between_eq (Nat.le_add_right _ _) hstop, List.drop_take, Nat.add_sub_cancel_left]
  have hlength : ((bytes.drop start).take (2 * width)).length = 2 * width := by
    rw [List.length_take, List.length_drop]
    omega
  -- The place of a group is the window of zeros behind the groups that were decoded.
  have hplace : between (front ++ List.replicate (width + more) 0) front.length
      (front.length + width) = pure (List.replicate width 0) := by
    rw [between_eq (Nat.le_add_right _ _) (by simp), List.drop_take, Nat.add_sub_cancel_left,
      List.drop_left, List.take_replicate, Nat.min_eq_left (Nat.le_add_right _ _)]
  have hroomy : (List.replicate width (0 : UInt8)).length = width := List.length_replicate
  have hdecoded := hdecode.map_toList hlength
  rw [scanGroup]
  dsimp only
  rw [sub_eq (Nat.le_add_right _ _), pure_bind, hdigits, pure_bind, Nat.add_sub_cancel_left,
    Nat.mul_div_cancel_left _ (by decide), add_eq (by omega), pure_bind, hplace, pure_bind, hroomy,
    spelledGroup, ← hdecoded]
  cases decode ((bytes.drop start).take (2 * width)) width with
  | none => rfl
  | some piece =>
      have hwindow : (List.replicate width (0 : UInt8)).length = piece.toList.length := by simp
      rw [required_some, pure_bind, List.replicate_add, Octets.overwrite_append rfl hwindow,
        ← List.append_assoc]
      rfl

/-- Where the groups start, and how many bytes they spell. -/
def layout : List (Nat × Nat) := [(0, 4), (9, 2), (14, 2), (19, 2), (24, 6)]

/-- The groups of a layout, the first of them with its bytes from `place` on. -/
def groupsAt : Nat → List (Nat × Nat) → List Group
  | _, [] => []
  | place, (start, width) :: layout =>
      ⟨start, start + 2 * width, place⟩ :: groupsAt (place + width) layout

theorem groups_eq : groups = groupsAt 0 layout := rfl

theorem le_length_of_mem_layout {bytes : List UInt8} (h : bytes.length = 36) :
    ∀ part ∈ layout, part.1 + 2 * part.2 ≤ bytes.length := by
  rw [h]
  decide

/-- **Groups are decoded one behind the other**, until one is not made of digits. -/
theorem foldlM_scanGroup_eq (hdecode : decode.DecodesPairs) {bytes front : List UInt8}
    {layout : List (Nat × Nat)} (hstop : ∀ part ∈ layout, part.1 + 2 * part.2 ≤ bytes.length)
    (hroom : front.length + (layout.map Prod.snd).sum = size) :
    (groupsAt front.length layout).foldlM (scanGroup decode bytes)
        (front ++ List.replicate (layout.map Prod.snd).sum 0)
      = settled ((layout.mapM fun part => spelledGroup bytes part.1 part.2).map fun pieces =>
          front ++ pieces.flatten) := by
  induction layout generalizing front with
  | nil => rfl
  | cons part layout ih =>
      obtain ⟨start, width⟩ := part
      obtain ⟨hfirst, hrest⟩ := List.forall_mem_cons.mp hstop
      rw [List.map_cons, List.sum_cons] at hroom ⊢
      rw [groupsAt, List.foldlM_cons, scanGroup_eq hdecode hfirst hroom, List.mapM_cons]
      cases hpiece : spelledGroup bytes start width with
      | error e => rfl
      | ok piece =>
          have hlength := length_of_spelledGroup hfirst hpiece
          have hplace : front.length + width = (front ++ piece).length := by
            rw [List.length_append, hlength]
          have hnext : (front ++ piece).length + (layout.map Prod.snd).sum = size := by
            rw [← hplace, Nat.add_assoc, hroom]
          rw [Except.map, settled_ok, pure_bind, hplace, ih hrest hnext]
          cases layout.mapM fun part => spelledGroup bytes part.1 part.2 with
          | error e => rfl
          | ok pieces => simp [Except.map]

/-! ### The fields -/

theorem bigWord_eq {width index : Nat} {bytes : List UInt8} (h : index + width ≤ bytes.length) :
    bigWord width bytes index = pure (Octets.bigValue ((bytes.drop index).take width)) := by
  rw [bigWord, mapM_byte_eq h, pure_bind]

/-- The fields are read from the bytes of the five groups. -/
theorem fields_eq {a b c d e : List UInt8} (ha : a.length = 4) (hb : b.length = 2)
    (hc : c.length = 2) (hd : d.length = 2) (he : e.length = 6) :
    (do
      let packed := [a, b, c, d, e].flatten
      let data4 ← fill 8 (← beyond packed 8)
      return ofFields (.ofNat (← bigWord 4 packed 0)) (.ofNat (← bigWord 2 packed 4))
        (.ofNat (← bigWord 2 packed 6)) data4)
    = pure (⟨.ofNat (Octets.bigValue a), .ofNat (Octets.bigValue b), .ofNat (Octets.bigValue c),
        .ofNat (Octets.bigValue d * 0x1000000000000 + Octets.bigValue e)⟩ : Guid) := by
  have hpacked : [a, b, c, d, e].flatten = a ++ (b ++ (c ++ (d ++ e))) := by simp
  have hlength : (a ++ (b ++ (c ++ (d ++ e)))).length = 16 := by
    simp only [List.length_append, ha, hb, hc, hd, he]
  have hlast : (d ++ e).length = 8 := by rw [List.length_append, hd, he]
  have hdata4 : (a ++ (b ++ (c ++ (d ++ e)))).drop 8 = d ++ e := by
    rw [← List.append_assoc, ← List.append_assoc,
      List.drop_left' (by simp only [List.length_append, ha, hb, hc])]
  have hdata1 : ((a ++ (b ++ (c ++ (d ++ e)))).drop 0).take 4 = a := List.take_left' ha
  have hdata2 : ((a ++ (b ++ (c ++ (d ++ e)))).drop 4).take 2 = b := by
    rw [List.drop_left' ha, List.take_left' hb]
  have hdata3 : ((a ++ (b ++ (c ++ (d ++ e)))).drop 6).take 2 = c := by
    rw [← List.append_assoc, List.drop_left' (by rw [List.length_append, ha, hb]),
      List.take_left' hc]
  have hvalue : Octets.bigValue (d ++ e)
      = Octets.bigValue d * 0x1000000000000 + Octets.bigValue e := by
    rw [Octets.bigValue_append, he]
  dsimp only
  rw [hpacked, beyond_eq (by omega), pure_bind, hdata4, fill, if_pos hlast, pure_bind,
    bigWord_eq (by omega), pure_bind, hdata1, bigWord_eq (by omega), pure_bind, hdata2,
    bigWord_eq (by omega), pure_bind, hdata3, ofFields, hvalue]

/-- **The reader reads what the groups spell**, one after the other. -/
theorem parse_eq {text : List Char} (h : hasShape text = true) :
    parse text = (do
      let a ← spelledGroup (Text.octets text) 0 4
      let b ← spelledGroup (Text.octets text) 9 2
      let c ← spelledGroup (Text.octets text) 14 2
      let d ← spelledGroup (Text.octets text) 19 2
      let e ← spelledGroup (Text.octets text) 24 6
      return ⟨.ofNat (Octets.bigValue a), .ofNat (Octets.bigValue b), .ofNat (Octets.bigValue c),
        .ofNat (Octets.bigValue d * 0x1000000000000 + Octets.bigValue e)⟩) := by
  have hstop := le_length_of_mem_layout (hasShape_iff.mp h).1
  have hgroup : ∀ {start width : Nat}, (start, width) ∈ layout → 0 < width →
      parseGroup (Text.columns text) start (2 * width)
        = (spelledGroup (Text.octets text) start width).map Octets.bigValue :=
    fun hpart hpos => parseGroup_eq hpos (Text.length_octets text ▸ hstop _ hpart)
  have ha := @hgroup 0 4 (by decide) (by decide)
  have hb := @hgroup 9 2 (by decide) (by decide)
  have hc := @hgroup 14 2 (by decide) (by decide)
  have hd := @hgroup 19 2 (by decide) (by decide)
  have he := @hgroup 24 6 (by decide) (by decide)
  rw [parse, if_pos h]
  dsimp only
  rw [ha, hb, hc, hd, he]
  simp only [Outcome.map_bind]

/-- **The program comes to what the reader reads**, and never traps. -/
theorem scan_eq (hdecode : decode.DecodesPairs) (text : List Char) :
    scan decode text = settled (parse text) := by
  rw [scan, isMisshapen_eq, pure_bind]
  cases hshape : hasShape text with
  | false =>
      rw [parse, hshape]
      rfl
  | true =>
      have hstop := le_length_of_mem_layout (hasShape_iff.mp hshape).1
      have hpacked : groups.foldlM (scanGroup decode (Text.octets text)) (List.replicate size 0)
          = settled ((layout.mapM fun part => spelledGroup (Text.octets text) part.1 part.2).map
              List.flatten) := by
        rw [groups_eq]
        exact @foldlM_scanGroup_eq _ hdecode _ [] _ hstop rfl
      rw [if_neg (by decide), hpacked, parse_eq hshape]
      simp only [layout, List.mapM_cons, List.mapM_nil]
      cases ha : spelledGroup (Text.octets text) 0 4 with
      | error e => rfl
      | ok a =>
        cases hb : spelledGroup (Text.octets text) 9 2 with
        | error e => rfl
        | ok b =>
          cases hc : spelledGroup (Text.octets text) 14 2 with
          | error e => rfl
          | ok c =>
            cases hd : spelledGroup (Text.octets text) 19 2 with
            | error e => rfl
            | ok d =>
              cases he : spelledGroup (Text.octets text) 24 6 with
              | error e => rfl
              | ok e =>
                exact fields_eq (length_of_spelledGroup (hstop (0, 4) (by decide)) ha)
                  (length_of_spelledGroup (hstop (9, 2) (by decide)) hb)
                  (length_of_spelledGroup (hstop (14, 2) (by decide)) hc)
                  (length_of_spelledGroup (hstop (19, 2) (by decide)) hd)
                  (length_of_spelledGroup (hstop (24, 6) (by decide)) he)

end Guid

end SecurityDescriptor
