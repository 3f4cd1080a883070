/-
Pairs of hexadecimal digits and the numbers that they are read as.

A numeral with an even number of hexadecimal digits can be read digit by digit, as a number, or pair
by pair, as bytes.  The bytes, most significant first, make up the number.  The digits are those of a
text, given as its bytes for the one reading and as its columns for the other.

Main results:

* `HexPairs.digit?_of_bears` — a digit is found out from its byte;
* `HexPairs.read?_eq` — **reading a numeral is reading its pairs**;
* `HexDecoder.DecodesPairs.map_toList` — a decoder of pairs gives what the pairs spell.
-/

import SecurityDescriptor.Octets
import SecurityDescriptor.Proofs.Outcome
import SecurityDescriptor.Proofs.Text.Plain
import SecurityDescriptor.Proofs.Text.Slice
import SecurityDescriptor.Text.HexPairs

set_option relaxedAutoImplicit false
set_option autoImplicit false

namespace SecurityDescriptor

/-! ### Digits -/

namespace Numeral

theorem hexDigitValue?_eq_none {c : Char} (h : 128 ≤ c.toNat) : hexDigitValue? c = none := by
  cases hvalue : hexDigitValue? c with
  | none => rfl
  | some d =>
      have hsize := Text.utf8Size_eq_one_iff_lt.mp
        (Text.utf8Size_of_isAlphanum (isAlphanum_of_hexDigitValue? hvalue))
      omega

/-- A digit in either case is the digit of its value, in lower case. -/
theorem digitChar_of_hexDigitValue? {c : Char} {d : Nat} (h : hexDigitValue? c = some d) :
    d < 16 ∧ Nat.digitChar d = c.toLower := by
  have hall : ∀ n ∈ List.range 128, ∀ d ∈ hexDigitValue? (Char.ofNat n),
      d < 16 ∧ Nat.digitChar d = (Char.ofNat n).toLower := by decide +kernel
  have hsmall : c.toNat < 128 :=
    Text.utf8Size_eq_one_iff_lt.mp (Text.utf8Size_of_isAlphanum (isAlphanum_of_hexDigitValue? h))
  have hdigit := hall c.toNat (List.mem_range.mpr hsmall)
  rw [Char.ofNat_toNat] at hdigit
  exact hdigit d h

/-- Every hexadecimal digit is a digit in base 16. -/
theorem digitValue?_sixteen (c : Char) : digitValue? 16 c = hexDigitValue? c := by
  rw [digitValue?]
  cases hvalue : hexDigitValue? c with
  | none => rfl
  | some d =>
      have hd := (digitChar_of_hexDigitValue? hvalue).1
      rw [Option.filter_some, if_pos (decide_eq_true hd)]

end Numeral

namespace HexPairs

open Octets Text

/-- A digit is found out from its byte. -/
theorem digit?_of_bears {c : Char} {b : UInt8} (h : Bears c b) :
    Numeral.digitValue? 16 c = digit? b := by
  rw [Numeral.digitValue?_sixteen]
  exact h.congr fun _ => Numeral.hexDigitValue?_eq_none

theorem Spells.length {digits bytes : List UInt8} (h : Spells digits bytes) :
    digits.length = 2 * bytes.length := by
  induction h with
  | nil => rfl
  | cons _ _ _ ih =>
      simp only [List.length_cons]
      omega

/-- Pairs of digits are digits, and an even number of digits is made of pairs. -/
theorem isSome_bytes?_iff {width : Nat} {digits : List UInt8} (h : digits.length = 2 * width) :
    (bytes? digits).isSome ↔ ∀ b ∈ digits, (digit? b).isSome := by
  induction width generalizing digits with
  | zero =>
      obtain rfl : digits = [] := List.length_eq_zero_iff.mp h
      simp [bytes?]
  | succ width ih =>
      obtain ⟨a, rest, rfl⟩ := List.exists_cons_of_length_eq_add_one h
      obtain ⟨b, digits, rfl⟩ := List.exists_cons_of_length_eq_add_one (Nat.succ.inj h)
      have hrest : digits.length = 2 * width := by
        simp only [List.length_cons] at h
        omega
      rw [List.forall_mem_cons, List.forall_mem_cons, ← ih hrest, bytes?]
      cases digit? a with
      | none => simp
      | some high =>
          cases digit? b with
          | none => simp
          | some low => cases bytes? digits <;> simp

/-- A text whose bytes are digits is made of letters and decimal digits. -/
theorem isWord_of_spells {text : List Char} {bytes : List UInt8} (h : Spells (octets text) bytes) :
    IsWord text := by
  have hdigits : ∀ b ∈ octets text, (digit? b).isSome := by
    rw [← isSome_bytes?_iff h.length, bytes?_eq_some_iff.mpr h]
    rfl
  intro c hc
  obtain ⟨b, hb, hbears⟩ :=
    Outcome.exists_mem_of_forall₂ (bears_octets text).flip (mem_columns hc)
  have hdigit := hdigits b hb
  rw [← digit?_of_bears hbears] at hdigit
  exact Numeral.isAlphanum_of_digitValue? hdigit

theorem digit?_lt {b : UInt8} {d : Nat} (h : digit? b = some d) : d < 16 :=
  (Numeral.digitChar_of_hexDigitValue? h).1

/-- Two more digits behind a number are one more byte, as long as the limit leaves room for it. -/
theorem extend?_pair {limit n : Nat} {high low : Char} {a b : UInt8} (hhigh : Bears high a)
    (hlow : Bears low b) (hroom : (n + 1) * 256 ≤ limit + 1) :
    (Numeral.extend? 16 limit n high).bind (Numeral.extend? 16 limit · low)
      = (digit? a).bind fun x => (digit? b).map fun y => n * 256 + (16 * x + y) := by
  rw [Numeral.extend?, digit?_of_bears hhigh]
  cases hx : digit? a with
  | none => rfl
  | some x =>
      have hx16 := digit?_lt hx
      rw [Option.bind_some, if_pos (by omega), Option.bind_some, Numeral.extend?,
        digit?_of_bears hlow]
      cases hy : digit? b with
      | none => rfl
      | some y =>
          have hy16 := digit?_lt hy
          have hvalue : (n * 16 + x) * 16 + y = n * 256 + (16 * x + y) := by omega
          rw [Option.bind_some, if_pos (by omega), hvalue]
          rfl

/-- Reading on behind a number, as long as the limit leaves room for all digits. -/
theorem foldlM_extend?_eq {limit n width : Nat} {columns : List Char} {digits : List UInt8}
    (h : List.Forall₂ Bears columns digits) (hwidth : digits.length = 2 * width)
    (hlimit : (n + 1) * Nat.pow 256 width ≤ limit + 1) :
    columns.foldlM (Numeral.extend? 16 limit) n
      = (bytes? digits).map fun bytes => n * Nat.pow 256 width + bigValue bytes := by
  induction width generalizing n columns digits with
  | zero =>
      obtain rfl : digits = [] := List.length_eq_zero_iff.mp hwidth
      cases h
      simp [bytes?, bigValue, littleValue]
  | succ width ih =>
      obtain ⟨a, rest, rfl⟩ := List.exists_cons_of_length_eq_add_one hwidth
      obtain ⟨b, digits, rfl⟩ := List.exists_cons_of_length_eq_add_one (Nat.succ.inj hwidth)
      obtain ⟨high, tail, hhigh, htail, rfl⟩ := List.forall₂_cons_right_iff.mp h
      obtain ⟨low, columns, hlow, hcolumns, rfl⟩ := List.forall₂_cons_right_iff.mp htail
      have hrest : digits.length = 2 * width := by
        simp only [List.length_cons] at hwidth
        omega
      have hpow : Nat.pow 256 (width + 1) = 256 * Nat.pow 256 width := Nat.mul_comm ..
      rw [hpow, ← Nat.mul_assoc] at hlimit
      have hroom : (n + 1) * 256 ≤ limit + 1 :=
        Nat.le_trans (Nat.le_mul_of_pos_right _ (Nat.pow_pos (by decide))) hlimit
      have hpair : (high :: low :: columns).foldlM (Numeral.extend? 16 limit) n
          = ((Numeral.extend? 16 limit n high).bind (Numeral.extend? 16 limit · low)).bind
              (columns.foldlM (Numeral.extend? 16 limit)) := by
        rw [List.foldlM_cons, Option.bind_assoc]
        rfl
      rw [hpair, extend?_pair hhigh hlow hroom, bytes?]
      cases hx : digit? a with
      | none => rfl
      | some x =>
          cases hy : digit? b with
          | none => rfl
          | some y =>
              have hx16 := digit?_lt hx
              have hy16 := digit?_lt hy
              have hnext : (n * 256 + (16 * x + y) + 1) * Nat.pow 256 width ≤ limit + 1 :=
                Nat.le_trans (Nat.mul_le_mul_right _ (by omega)) hlimit
              have hrun := ih hcolumns hrest hnext
              simp only [Option.bind_some, Option.map_some, Option.bind_eq_bind]
              rw [hrun]
              cases hbytes : bytes? digits with
              | none => rfl
              | some bytes =>
                  have hlength := (bytes?_eq_some_iff.mp hbytes).length
                  obtain rfl : bytes.length = width := by omega
                  have hbyte : (UInt8.ofNat (16 * x + y)).toNat = 16 * x + y :=
                    UInt8.toNat_ofNat_of_lt' (show 16 * x + y < 256 by omega)
                  refine congrArg some ?_
                  dsimp only
                  rw [bigValue_cons, hbyte, hpow, Nat.add_mul, Nat.mul_assoc, Nat.add_assoc]

/-- **Reading a numeral is reading its pairs.** -/
theorem read?_eq {width : Nat} (hpos : 0 < width) {columns : List Char} {digits : List UInt8}
    (h : List.Forall₂ Bears columns digits) (hwidth : digits.length = 2 * width) :
    Numeral.read? 16 (Nat.pow 16 (2 * width) - 1) columns = (bytes? digits).map bigValue := by
  have hne : columns ≠ [] := by
    have hlength := h.length_eq
    rintro rfl
    rw [List.length_nil] at hlength
    omega
  have hpow : Nat.pow 16 (2 * width) = Nat.pow 256 width := Nat.pow_mul 16 2 width
  have hlimit : (0 + 1) * Nat.pow 256 width ≤ Nat.pow 16 (2 * width) - 1 + 1 := by
    rw [hpow]
    omega
  rw [Numeral.read?, if_neg hne, foldlM_extend?_eq h hwidth hlimit]
  simp only [Nat.zero_mul, Nat.zero_add]

end HexPairs

/-- A decoder of pairs gives what the pairs spell, where they fill the place. -/
theorem HexDecoder.DecodesPairs.map_toList {decode : HexDecoder} (hdecode : decode.DecodesPairs)
    {digits : List UInt8} {room : Nat} (h : digits.length = 2 * room) :
    (decode digits room).map Vector.toList = HexPairs.bytes? digits := by
  cases hbytes : HexPairs.bytes? digits with
  | none =>
      cases hdecoded : decode digits room with
      | none => rfl
      | some bytes =>
          rw [HexPairs.bytes?_eq_some_iff.mpr ((hdecode digits room bytes).mp hdecoded)] at hbytes
          cases hbytes
  | some bytes =>
      have hspells := HexPairs.bytes?_eq_some_iff.mp hbytes
      have hlength : bytes.length = room := by
        have heven := hspells.length
        omega
      rw [(hdecode digits room ⟨bytes.toArray, hlength⟩).mpr hspells]
      rfl

end SecurityDescriptor
