/-
**Appending composes, and what is appended is also collected and placed.**

Most of what an encoder does is to put bytes behind a vector, one piece after another, so what it
puts there in the end is read off its steps.  The two other ways into bytes, a vector of its own and
a buffer of the caller, are built on this one: whoever knows what a program appends, to any vector,
knows what it collects and what it leaves in a buffer.

Main definitions:

* `Buffer.InPlace.Appends` — a program that puts given bytes behind any vector;
* `Buffer.Form.Writes` — the four ways in which a value gets into bytes agree on them.

Main results:

* `Buffer.InPlace.Appends.bind`, `Buffer.InPlace.appends_forM` — **one program after another puts one
  piece behind the other**;
* `Buffer.Form.writes` — **what is measured and appended is also collected and placed**.
-/

import SecurityDescriptor.Buffer.InPlace

set_option relaxedAutoImplicit false
set_option autoImplicit false

namespace SecurityDescriptor

namespace Buffer

open Checked

/-! ### Appending -/

namespace InPlace

/-- **The program puts the bytes behind any vector** and does nothing else. -/
def Appends (program : InPlace Unit) (bytes : List UInt8) : Prop :=
  ∀ front, program.run front = .ok (.ok (), front ++ bytes)

theorem appends_nil : Appends (pure ()) [] := by
  intro front
  simp

theorem appends_writeByte (b : UInt8) : Appends (writeByte b) [b] := by
  intro front
  simp

theorem appends_writeBytes (piece : List UInt8) : Appends (writeBytes piece) piece := by
  intro front
  simp

/-- One program after another puts one piece behind the other. -/
theorem Appends.bind {first : InPlace Unit} {next : Unit → InPlace Unit}
    {a b : List UInt8} (ha : Appends first a) (hb : Appends (next ()) b) :
    Appends (first >>= next) (a ++ b) := by
  intro front
  rw [run_bind_of_ok (ha front), hb, List.append_assoc]

/-- What is worked out beforehand puts nothing. -/
theorem Appends.aside {α : Type} {program : Checked α} {next : α → InPlace Unit} {a : α}
    {bytes : List UInt8} (hprogram : program = pure a) (h : Appends (next a) bytes) :
    Appends ((liftM program : InPlace α) >>= next) bytes := by
  intro front
  rw [hprogram, run_bind_of_ok (run_aside_pure ..), h]

/-- A program for each member puts their pieces one behind the other. -/
theorem appends_forM {α : Type} {write : α → InPlace Unit} {encode : α → List UInt8}
    {members : List α} (h : ∀ a ∈ members, Appends (write a) (encode a)) :
    Appends (members.forM write) (members.flatMap encode) := by
  induction members with
  | nil => exact appends_nil
  | cons a members ih =>
      have hhead := h a (List.mem_cons_self ..)
      have htail := ih fun other hother => h other (List.mem_cons_of_mem _ hother)
      exact hhead.bind htail

end InPlace

/-! ### The four ways -/

namespace Form

open InPlace

/-- **The four ways in which a value gets into bytes agree**: the length that is worked out is that
of the bytes; they are what is collected in a vector of its own; they are put behind any vector; and
in a buffer they take exactly their window, if there is room for it. -/
structure Writes (form : Form) (bytes : List UInt8) : Prop where
  measured : form.measure = pure bytes.length
  collected : form.toBytes = pure bytes
  appended : ∀ before : List UInt8, before.length < sliceLimit →
    form.write.run before = .ok (.ok (), before ++ bytes)
  placed : ∀ (buffer : List UInt8) (offset : Nat), buffer.length < sliceLimit →
    offset + bytes.length ≤ buffer.length →
    ∃ changed, (form.writeTo offset).run buffer = .ok (.ok bytes.length, changed) ∧
      changed.length = buffer.length ∧ (changed.drop offset).take bytes.length = bytes ∧
      ∀ i, i < offset ∨ offset + bytes.length ≤ i → changed[i]? = buffer[i]?
  refused : ∀ (buffer : List UInt8) (offset : Nat), buffer.length < sliceLimit →
    buffer.length < offset + bytes.length →
    (form.writeTo offset).run buffer
      = .ok (.error (.bufferTooSmall bytes.length (buffer.length - offset)), buffer)

variable {form : Form} {bytes : List UInt8}

theorem toBytes_eq (hmeasure : form.measure = pure bytes.length)
    (hwrite : form.write.run [] = .ok (.ok (), bytes)) : form.toBytes = pure bytes := by
  rw [toBytes, hmeasure, pure_bind, hwrite]
  rfl

/-- A value that is collected is placed. -/
theorem run_writeTo (hbytes : form.toBytes = pure bytes) (hne : bytes ≠ []) {buffer : List UInt8}
    (hbuffer : buffer.length < sliceLimit) (offset : Nat) :
    (form.writeTo offset).run buffer =
      match place buffer offset bytes with
      | .ok changed => .ok (.ok bytes.length, changed)
      | .error e => .ok (.error e, buffer) := by
  have hword : buffer.length < wordLimit := Nat.lt_of_lt_of_le hbuffer (by decide)
  rw [writeTo, hbytes, run_bind_of_ok (run_aside_pure ..)]
  exact run_copyOut hne hword offset

/-- **What is measured and appended is also collected and placed.** -/
theorem writes (hne : bytes ≠ []) (hmeasure : form.measure = pure bytes.length)
    (hwrite : ∀ before : List UInt8, before.length < sliceLimit →
      form.write.run before = .ok (.ok (), before ++ bytes)) : form.Writes bytes := by
  have hcollected := toBytes_eq hmeasure (hwrite [] (by decide))
  have hpos : 0 < bytes.length := List.length_pos_iff.mpr hne
  refine ⟨hmeasure, hcollected, hwrite, ?_, ?_⟩
  · intro buffer offset hbuffer hfits
    have hroom : bytes.length ≤ room buffer offset := by
      unfold room
      omega
    refine ⟨Octets.overwrite buffer offset bytes, ?_, Octets.length_overwrite hfits,
      Octets.take_drop_overwrite (by omega), fun i hi => Octets.getElem?_overwrite hfits hi⟩
    rw [run_writeTo hcollected hne hbuffer, place, if_pos hroom]
  · intro buffer offset hbuffer hshort
    have hroom : ¬bytes.length ≤ room buffer offset := by
      unfold room
      omega
    rw [run_writeTo hcollected hne hbuffer, place, if_neg hroom]
    rfl

end Form

end Buffer

end SecurityDescriptor
