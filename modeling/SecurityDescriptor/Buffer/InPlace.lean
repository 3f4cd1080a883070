/-
Programs that write into a byte vector.

An encoder does not return bytes: it is given a vector that may already hold some and puts its own
behind them, and where a number is known only later it goes back and overwrites the place that it
has kept for it.  A value that is to be written into a buffer of the caller is written into a vector
of its own first, and copied from there if the buffer has room for it.

Main definitions:

* `Buffer.InPlace`, `Buffer.InPlace.run` — a program that works on a byte vector in place, and what
  comes of it;
* `Buffer.InPlace.writeByte`, `Buffer.InPlace.writeBytes`, `Buffer.InPlace.store` — one byte more, more
  bytes, and other bytes in the place of some;
* `Buffer.Form` — the length of a value and the program that writes it;
* `Buffer.Form.toBytes`, `Buffer.Form.writeTo` — the value in a vector of its own, and in a buffer.

Main results:

* `Buffer.InPlace.run_bind_of_ok` — a step that succeeds leaves its vector to the next one;
* `Buffer.InPlace.run_store` — **bytes in a window are put in its place**;
* `Buffer.InPlace.run_copyOut` — **copying into a buffer is placing the bytes in it**.
-/

import SecurityDescriptor.Buffer
import SecurityDescriptor.Checked

set_option relaxedAutoImplicit false
set_option autoImplicit false

namespace SecurityDescriptor

namespace Buffer

open Checked

/-- A program that works on a byte vector in place.  What it has written by the time it fails stays
written. -/
abbrev InPlace (α : Type) : Type := ExceptT Error (StateT (List UInt8) (Except Trap)) α

namespace InPlace

variable {α β : Type}

/-- What a program comes to on a vector, and the vector that it leaves behind. -/
def run (program : InPlace α) (bytes : List UInt8) :
    Except Trap (Except Error α × List UInt8) :=
  StateT.run (ExceptT.run program) bytes

/-- The program that leaves the vector alone. -/
def aside (program : Checked α) : InPlace α :=
  ExceptT.mk fun bytes => (Checked.run program).map fun result => (result, bytes)

instance : MonadLift Checked InPlace := ⟨aside⟩

/-- The number of bytes in the vector. -/
def length : InPlace Nat := do
  return (← get).length

/-- Puts a byte at the end. -/
def writeByte (b : UInt8) : InPlace Unit := modify (· ++ [b])

/-- Puts bytes at the end. -/
def writeBytes (piece : List UInt8) : InPlace Unit := modify (· ++ piece)

/-- Puts bytes in the place of those that stand at `start`. -/
def store (start : Nat) (piece : List UInt8) : InPlace Unit := do
  let bytes ← get
  let window ← between bytes start (← add start piece.length)
  let piece ← fill window.length piece
  set (Octets.overwrite bytes start piece)

/-- Copies encoded bytes into the vector if it has room for them at `offset`. -/
def copyOut (encoded : List UInt8) (offset : Nat) : InPlace Nat := do
  let available := room (← get) offset
  if available < encoded.length then
    throw (.bufferTooSmall encoded.length available)
  else
    store offset encoded
    return encoded.length

end InPlace

/-! ### Values in a binary form -/

/-- How a value gets into bytes: the length that is worked out beforehand, and the program that puts
the bytes at the end of a vector. -/
structure Form where
  measure : Checked Nat
  write : InPlace Unit

namespace Form

/-- The bytes of the value, in a vector of the length that was worked out. -/
def toBytes (form : Form) : Checked (List UInt8) := do
  let _capacity ← form.measure
  ExceptT.mk do
    let (result, bytes) ← form.write.run []
    return result.map fun () => bytes

/-- Writes the value into a buffer. -/
def writeTo (form : Form) (offset : Nat) : InPlace Nat := do
  InPlace.copyOut (← form.toBytes) offset

end Form

/-! ### What comes of a program -/

namespace InPlace

variable {α β : Type}

@[simp] theorem run_pure (a : α) (bytes : List UInt8) :
    run (pure a) bytes = .ok (.ok a, bytes) := rfl

@[simp] theorem run_writeByte (b : UInt8) (bytes : List UInt8) :
    run (writeByte b) bytes = .ok (.ok (), bytes ++ [b]) := rfl

@[simp] theorem run_writeBytes (piece bytes : List UInt8) :
    run (writeBytes piece) bytes = .ok (.ok (), bytes ++ piece) := rfl

@[simp] theorem run_aside_pure (a : α) (bytes : List UInt8) :
    run (liftM (pure a : Checked α) : InPlace α) bytes = .ok (.ok a, bytes) := rfl

/-- A step that succeeds leaves its vector to the next one. -/
theorem run_bind_of_ok {program : InPlace α} {next : α → InPlace β} {bytes changed : List UInt8}
    {a : α} (h : run program bytes = .ok (.ok a, changed)) :
    run (program >>= next) bytes = run (next a) changed := by
  rw [run] at h ⊢
  rw [ExceptT.run_bind, StateT.run_bind, h]
  rfl

theorem run_get_bind (next : List UInt8 → InPlace β) (bytes : List UInt8) :
    run (get >>= next) bytes = run (next bytes) bytes := rfl

theorem run_length_bind (next : Nat → InPlace β) (bytes : List UInt8) :
    run (length >>= next) bytes = run (next bytes.length) bytes := rfl

/-- **Bytes in a window are put in its place.** -/
theorem run_store {start : Nat} {piece bytes : List UInt8}
    (hfits : start + piece.length ≤ bytes.length) (hbytes : bytes.length < wordLimit) :
    run (store start piece) bytes = .ok (.ok (), Octets.overwrite bytes start piece) := by
  have hwindow : between bytes start (start + piece.length)
      = pure ((bytes.take (start + piece.length)).drop start) :=
    between_eq (Nat.le_add_right ..) hfits
  have hlength : ((bytes.take (start + piece.length)).drop start).length = piece.length := by
    simp
    omega
  rw [store, run_get_bind, add_eq (by omega), run_bind_of_ok (run_aside_pure ..), hwindow,
    run_bind_of_ok (run_aside_pure ..), hlength, fill, if_pos rfl,
    run_bind_of_ok (run_aside_pure ..)]
  rfl

/-- **Copying into a buffer** leaves behind what placing the bytes in it computes, and the buffer as
it was if they have no room. -/
theorem run_copyOut {encoded bytes : List UInt8} (hencoded : encoded ≠ [])
    (hbytes : bytes.length < wordLimit) (offset : Nat) :
    run (copyOut encoded offset) bytes =
      match place bytes offset encoded with
      | .ok changed => .ok (.ok encoded.length, changed)
      | .error e => .ok (.error e, bytes) := by
  rw [copyOut, run_get_bind, place]
  dsimp only
  split
  · rename_i hshort
    rw [if_neg (Nat.not_le.mpr hshort)]
    rfl
  · rename_i hlong
    have hpos : 0 < encoded.length := List.length_pos_iff.mpr hencoded
    have hfits : offset + encoded.length ≤ bytes.length := by
      unfold room at hlong
      omega
    rw [if_pos (Nat.le_of_not_lt hlong), run_bind_of_ok (run_store hfits hbytes)]
    rfl

end InPlace

end Buffer

end SecurityDescriptor
