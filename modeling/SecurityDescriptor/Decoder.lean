/-
Decoders: reading a value at the front of a byte string, or at an offset into one.

A decoder is given the bytes from where its value starts, and reports damage by offsets from there.
Reading at an offset is dropping the bytes before it and moving the reported offset, so nothing to
the left of a value can influence how it is read.

Main definitions:

* `Decoder` — a function from bytes to a value or an error;
* `Decoder.startingAt` — the value that starts at an offset.

Main results:

* `Decoder.startingAt_append` — **decoding is position-independent**: bytes in front of the start
  only move the offset of an error.
-/

import SecurityDescriptor.Error

set_option relaxedAutoImplicit false
set_option autoImplicit false

namespace SecurityDescriptor

/-- Reads a value from the front of a byte string.  Offsets in errors count from there. -/
abbrev Decoder (α : Type) := List UInt8 → Except Error α

namespace Decoder

/-- The value that starts `offset` bytes into `bytes`.  Offsets in errors count from the start of
`bytes`; an offset beyond the end leaves the decoder without bytes. -/
def startingAt {α : Type} (decode : Decoder α) (bytes : List UInt8) (offset : Nat) :
    Except Error α :=
  (decode (bytes.drop offset)).mapError (Error.shift offset)

theorem startingAt_zero {α : Type} (decode : Decoder α) (bytes : List UInt8) :
    decode.startingAt bytes 0 = decode bytes := by
  simp only [startingAt, List.drop_zero]
  cases decode bytes with
  | error e => exact congrArg Except.error (Error.shift_zero e)
  | ok a => rfl

/-- Reading at an offset from an offset is reading at their sum. -/
theorem startingAt_add {α : Type} (decode : Decoder α) (bytes : List UInt8) (m n : Nat) :
    decode.startingAt bytes (m + n)
      = (decode.startingAt (bytes.drop m) n).mapError (Error.shift m) := by
  rw [startingAt, startingAt, List.drop_drop]
  cases decode (bytes.drop (m + n)) with
  | error e => exact congrArg Except.error (Error.shift_shift m n e).symm
  | ok a => rfl

/-- **Decoding is position-independent.** -/
theorem startingAt_append {α : Type} (decode : Decoder α) (front bytes : List UInt8)
    (offset : Nat) :
    decode.startingAt (front ++ bytes) (front.length + offset)
      = (decode.startingAt bytes offset).mapError (Error.shift front.length) := by
  rw [startingAt_add, List.drop_left]

end Decoder

end SecurityDescriptor
