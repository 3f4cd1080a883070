/-
Programs on slices and machine words, with the ways in which they go wrong.

The readers of this library take pieces off the front of a byte string and cannot look past its end.
A program that is given a slice and a position works differently: it adds to the position, subtracts
it from lengths, and cuts and indexes the slice where it points.  Each of these steps stops the
program when the number leaves the machine word or the position leaves the slice.  Such a stop is a
trap.  It is not an error that the program reports, and no caller can handle it.

Main definitions:

* `Checked` — a program that comes to a value, to an error or to a trap;
* `Checked.add`, `Checked.sub`, `Checked.mul` — arithmetic that traps outside the machine word;
* `Checked.byte`, `Checked.upTo`, `Checked.beyond`, `Checked.between`, `Checked.fill` — cuts that
  trap outside the slice;
* `Checked.add?`, `Checked.slice?`, `Checked.read?` — the careful forms, which answer instead;
* `Checked.settled` — the program that only comes to a given result.

Main results:

* `Checked.word_eq` — a number inside the slice is read without a trap;
* `Checked.slice?_eq`, `Checked.read?_eq` — **a careful cut of a slice is a cut off the front of what
  follows the position**.
-/

import SecurityDescriptor.Octets
import SecurityDescriptor.Error

set_option relaxedAutoImplicit false
set_option autoImplicit false

namespace SecurityDescriptor

/-- What stops a program where it stands. -/
inductive Trap
  /-- A number that is too great for a machine word. -/
  | overflow
  /-- A number below zero. -/
  | underflow
  /-- A position outside a slice. -/
  | outOfRange
  /-- A piece that does not have the length of the place it goes to. -/
  | lengthMismatch
  deriving DecidableEq, Repr

/-- A program on slices and machine words: it comes to a value or an error, unless it traps. -/
abbrev Checked (α : Type) : Type := ExceptT Error (Except Trap) α

namespace Checked

variable {α β : Type}

/-- What a program comes to. -/
def run (program : Checked α) : Except Trap (Except Error α) := ExceptT.run program

/-- The program that traps. -/
def trap (t : Trap) : Checked α := ExceptT.mk (.error t)

/-- The program that comes to `result` and does nothing else. -/
def settled (result : Except Error α) : Checked α := ExceptT.mk (.ok result)

/-- The value, or the error if there is none. -/
def required (value? : Option α) (e : Error) : Checked α :=
  match value? with
  | some a => pure a
  | none => throw e

/-! ### Machine words -/

/-- The machine word has 64 bits. -/
def wordLimit : Nat := Nat.pow 2 64

/-- A slice has fewer bytes than half the machine words. -/
def sliceLimit : Nat := Nat.pow 2 63

/-- The sum. -/
def add (a b : Nat) : Checked Nat := if a + b < wordLimit then pure (a + b) else trap .overflow

/-- The difference. -/
def sub (a b : Nat) : Checked Nat := if b ≤ a then pure (a - b) else trap .underflow

/-- The product. -/
def mul (a b : Nat) : Checked Nat := if a * b < wordLimit then pure (a * b) else trap .overflow

/-- The sum, if it fits. -/
def add? (a b : Nat) : Option Nat := if a + b < wordLimit then some (a + b) else none

/-! ### Slices -/

/-- The byte at `index`. -/
def byte (bytes : List UInt8) (index : Nat) : Checked UInt8 :=
  match bytes[index]? with
  | some b => pure b
  | none => trap .outOfRange

/-- The bytes before `stop`. -/
def upTo (bytes : List UInt8) (stop : Nat) : Checked (List UInt8) :=
  if stop ≤ bytes.length then pure (bytes.take stop) else trap .outOfRange

/-- The bytes from `start` on. -/
def beyond (bytes : List UInt8) (start : Nat) : Checked (List UInt8) :=
  if start ≤ bytes.length then pure (bytes.drop start) else trap .outOfRange

/-- The bytes from `start` on and before `stop`. -/
def between (bytes : List UInt8) (start stop : Nat) : Checked (List UInt8) := do
  beyond (← upTo bytes stop) start

/-- The bytes that fill a place of `length` bytes. -/
def fill (length : Nat) (piece : List UInt8) : Checked (List UInt8) :=
  if piece.length = length then pure piece else trap .lengthMismatch

/-- The number in the `width` bytes from `index` on, taken byte by byte. -/
def word (width : Nat) (bytes : List UInt8) (index : Nat) : Checked Nat := do
  return Octets.littleValue (← (List.range' index width).mapM (byte bytes))

/-- The `length` bytes from `start` on, if they are there. -/
def slice? (bytes : List UInt8) (start length : Nat) : Option (List UInt8) := do
  let stop ← add? start length
  if stop ≤ bytes.length then some ((bytes.drop start).take length) else none

/-- The number in the `width` bytes from `start` on, if they are there. -/
def read? (width : Nat) (bytes : List UInt8) (start : Nat) : Checked (Option Nat) :=
  match slice? bytes start width with
  | none => pure none
  | some raw => do return some (← word width raw 0)

/-! ### What the steps come to -/

@[simp] theorem settled_ok (a : α) : settled (.ok a) = pure a := rfl

@[simp] theorem settled_error (e : Error) : (settled (.error e) : Checked α) = throw e := rfl

@[simp] theorem run_settled (result : Except Error α) : run (settled result) = .ok result := rfl

@[simp] theorem throw_bind (e : Error) (f : α → Checked β) :
    ((throw e : Checked α) >>= f) = throw e := rfl

@[simp] theorem required_some (a : α) (e : Error) : required (some a) e = pure a := rfl

@[simp] theorem required_none (e : Error) : required (none : Option α) e = throw e := rfl

/-- Steps that do not trap do not trap one after another. -/
theorem mapM_eq {f : α → Checked β} {g : α → β} {as : List α}
    (h : ∀ a ∈ as, f a = pure (g a)) : as.mapM f = pure (as.map g) := by
  induction as with
  | nil => rfl
  | cons a as ih =>
      have hhead := h a (List.mem_cons_self ..)
      have htail := ih fun other hother => h other (List.mem_cons_of_mem _ hother)
      rw [List.mapM_cons, hhead, pure_bind, htail, pure_bind, List.map_cons]

/-- A position inside a slice leaves room for the sizes of this format. -/
theorem sliceLimit_add_le : sliceLimit + 1000000 ≤ wordLimit := by decide

theorem add_eq {a b : Nat} (h : a + b < wordLimit) : add a b = pure (a + b) := if_pos h

theorem sub_eq {a b : Nat} (h : b ≤ a) : sub a b = pure (a - b) := if_pos h

theorem mul_eq {a b : Nat} (h : a * b < wordLimit) : mul a b = pure (a * b) := if_pos h

theorem byte_eq {bytes : List UInt8} {index : Nat} {b : UInt8} (h : bytes[index]? = some b) :
    byte bytes index = pure b := by
  simp only [byte, h]

theorem upTo_eq {bytes : List UInt8} {stop : Nat} (h : stop ≤ bytes.length) :
    upTo bytes stop = pure (bytes.take stop) := if_pos h

theorem beyond_eq {bytes : List UInt8} {start : Nat} (h : start ≤ bytes.length) :
    beyond bytes start = pure (bytes.drop start) := if_pos h

example : run (beyond [1, 2, 3] 4) = .error .outOfRange := rfl

theorem between_eq {bytes : List UInt8} {start stop : Nat} (hstart : start ≤ stop)
    (hstop : stop ≤ bytes.length) : between bytes start stop = pure ((bytes.take stop).drop start) := by
  have hlength : start ≤ (bytes.take stop).length := by
    rw [List.length_take]
    omega
  rw [between, upTo_eq hstop, pure_bind, beyond_eq hlength]

/-- Taking bytes one by one takes the piece that they make up. -/
theorem mapM_byte_eq {bytes : List UInt8} {index width : Nat} (h : index + width ≤ bytes.length) :
    (List.range' index width).mapM (byte bytes) = pure ((bytes.drop index).take width) := by
  induction width generalizing index with
  | zero => rfl
  | succ width ih =>
      have hindex : index < bytes.length := by omega
      have hhead : byte bytes index = pure bytes[index] :=
        byte_eq (List.getElem?_eq_getElem hindex)
      have htail : (List.range' (index + 1) width).mapM (byte bytes)
          = pure ((bytes.drop (index + 1)).take width) := ih (by omega)
      rw [List.range'_succ, List.mapM_cons, hhead, pure_bind, htail, pure_bind,
        List.drop_eq_getElem_cons hindex, List.take_succ_cons]

/-- **A number inside the slice is read without a trap.** -/
theorem word_eq {width index : Nat} {bytes : List UInt8} (h : index + width ≤ bytes.length) :
    word width bytes index = pure (Octets.littleValue ((bytes.drop index).take width)) := by
  rw [word, mapM_byte_eq h, pure_bind]

/-- **A careful cut of a slice is a cut off the front of what follows the position.**  A position
beyond the end only makes a difference for a cut of no bytes. -/
theorem slice?_eq {bytes : List UInt8} {start length : Nat} (hbytes : bytes.length < sliceLimit)
    (h : start ≤ bytes.length ∨ 0 < length) :
    slice? bytes start length = (Octets.split? length (bytes.drop start)).map Prod.fst := by
  have hfront : ((bytes.drop start).take length).length = length ↔ start + length ≤ bytes.length := by
    rw [List.length_take, List.length_drop]
    omega
  have hlimit := sliceLimit_add_le
  by_cases hfits : start + length ≤ bytes.length
  · have hword : start + length < wordLimit := by omega
    simp [slice?, add?, Octets.split?, hword, hfits, hfront.mpr hfits]
  · have hno : ((bytes.drop start).take length).length ≠ length := fun h => hfits (hfront.mp h)
    simp only [slice?, add?, Octets.split?, if_neg hno, Option.map_none]
    split <;> simp [hfits]

theorem read?_eq {width start : Nat} {bytes : List UInt8} (hbytes : bytes.length < sliceLimit)
    (hwidth : 0 < width) :
    read? width bytes start = pure ((Octets.word? width (bytes.drop start)).map Prod.fst) := by
  rw [read?, slice?_eq hbytes (.inr hwidth), Octets.word?]
  cases hsplit : Octets.split? width (bytes.drop start) with
  | none => rfl
  | some cut =>
      obtain ⟨raw, rest⟩ := cut
      have hraw : raw.length = width := (Octets.split?_eq_some_iff.mp hsplit).2
      have hall : raw.take width = raw := List.take_of_length_le (Nat.le_of_eq hraw)
      have hword : word width raw 0 = pure (Octets.littleValue raw) := by
        rw [word_eq (by omega), List.drop_zero, hall]
      simp [hword]

end Checked

end SecurityDescriptor
