/-
Placing an encoded value in a buffer that the caller provides.

Main definitions:

* `Buffer.room` — the number of bytes from an offset to the end of the buffer;
* `Buffer.place` — the buffer with a value written at an offset, or the report that it does not fit.
-/

import SecurityDescriptor.Error
import SecurityDescriptor.Octets

set_option relaxedAutoImplicit false
set_option autoImplicit false

namespace SecurityDescriptor

namespace Buffer

/-- The bytes of the buffer from `offset` on; none if the offset lies beyond its end. -/
def room (buffer : List UInt8) (offset : Nat) : Nat := buffer.length - offset

/-- The buffer with `piece` written at `offset`.  A piece that does not fit is not written
at all. -/
def place (buffer : List UInt8) (offset : Nat) (piece : List UInt8) : Except Error (List UInt8) :=
  if piece.length ≤ room buffer offset then
    .ok (Octets.overwrite buffer offset piece)
  else
    .error (.bufferTooSmall piece.length (room buffer offset))

end Buffer

end SecurityDescriptor
