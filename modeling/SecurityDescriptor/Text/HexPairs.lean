/-
Bytes written as pairs of hexadecimal digits.

Two digits stand for each byte, the upper one first, in either case.  The digits are given as the
bytes of a text, and the bytes that they spell go into a place of a given size.

Main definitions:

* `HexPairs.digit?` — the value of a digit that is given as a byte;
* `HexPairs.Spells` — digits and the bytes that they spell;
* `HexDecoder`, `HexDecoder.DecodesPairs` — decoders of digits, and those that decode exactly the
  pairs;
* `HexPairs.decode` — one of them.
-/

import SecurityDescriptor.Text.Numeral

set_option relaxedAutoImplicit false
set_option autoImplicit false

namespace SecurityDescriptor

namespace HexPairs

/-- The value of a digit that is given as a byte. -/
def digit? (b : UInt8) : Option Nat := Numeral.hexDigitValue? (Char.ofUInt8 b)

/-- **The digits spell the bytes**: a pair of them for each. -/
inductive Spells : List UInt8 → List UInt8 → Prop
  | nil : Spells [] []
  | cons {a b : UInt8} {high low : Nat} {digits bytes : List UInt8} (hhigh : digit? a = some high)
      (hlow : digit? b = some low) (hrest : Spells digits bytes) :
      Spells (a :: b :: digits) (UInt8.ofNat (16 * high + low) :: bytes)

end HexPairs

/-- A decoder of digits into a place of `room` bytes, which it fills or leaves without an answer. -/
abbrev HexDecoder := (digits : List UInt8) → (room : Nat) → Option (Vector UInt8 room)

/-- **The decoder decodes exactly pairs of hexadecimal digits**, as many as fill the place. -/
def HexDecoder.DecodesPairs (decode : HexDecoder) : Prop :=
  ∀ (digits : List UInt8) (room : Nat) (bytes : Vector UInt8 room),
    decode digits room = some bytes ↔ HexPairs.Spells digits bytes.toList

namespace HexPairs

/-- The bytes that digits spell. -/
def bytes? : List UInt8 → Option (List UInt8)
  | [] => some []
  | [_] => none
  | a :: b :: digits => do
      let high ← digit? a
      let low ← digit? b
      return UInt8.ofNat (16 * high + low) :: (← bytes? digits)

/-- Decodes pairs of digits. -/
def decode : HexDecoder := fun digits room => do
  let bytes ← bytes? digits
  if h : bytes.length = room then some ⟨bytes.toArray, h⟩ else none

theorem bytes?_eq_some_iff {digits bytes : List UInt8} :
    bytes? digits = some bytes ↔ Spells digits bytes := by
  constructor
  · intro h
    induction digits using bytes?.induct generalizing bytes with
    | case1 =>
        cases h
        exact .nil
    | case2 => cases h
    | case3 a b digits ih =>
        obtain ⟨high, hhigh, h⟩ := Option.bind_eq_some_iff.mp h
        obtain ⟨low, hlow, h⟩ := Option.bind_eq_some_iff.mp h
        obtain ⟨rest, hrest, h⟩ := Option.bind_eq_some_iff.mp h
        cases h
        exact .cons hhigh hlow (ih hrest)
  · intro h
    induction h with
    | nil => rfl
    | cons hhigh hlow _ ih => simp [bytes?, hhigh, hlow, ih]

theorem decodesPairs_decode : HexDecoder.DecodesPairs decode := by
  intro digits room bytes
  rw [← bytes?_eq_some_iff, decode, Option.bind_eq_bind, Option.bind_eq_some_iff]
  constructor
  · rintro ⟨found, hfound, h⟩
    split at h
    · cases h
      simpa using hfound
    · cases h
  · intro h
    obtain ⟨bytes, hroom⟩ := bytes
    exact ⟨bytes.toList, h, by simp [hroom]⟩

end HexPairs

end SecurityDescriptor
