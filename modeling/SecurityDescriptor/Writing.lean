/-
Writing into a vector: the encoders as programs.

The binary form of a value is a list of bytes.  The programs here put these bytes behind whatever a
vector holds already, part by part, and work out the sizes that they write beforehand, without
looking at what will be written.  A descriptor does not know where its components will begin when it
writes its header: it leaves its slots empty, and each component that follows fills in its own.

Main definitions:

* `Sid.write`, `Entry.write`, `AccessList.write`, `Descriptor.write` — the programs;
* `AccessList.measure`, `Descriptor.measure` — sizes, worked out on machine words;
* `Descriptor.record` — filling in a slot of a descriptor that is being written;
* `Sid.form`, `Entry.form`, `AccessList.form`, `Descriptor.form` — both together.
-/

import SecurityDescriptor.Buffer.InPlace
import SecurityDescriptor.Positional

set_option relaxedAutoImplicit false
set_option autoImplicit false

namespace SecurityDescriptor

open Checked Buffer.InPlace

/-! ### Identifiers -/

namespace Sid

/-- Writes an identifier.  The authority is taken for a word of eight bytes, of which the first two
are left out. -/
def write (s : Sid) : Buffer.InPlace Unit := do
  writeByte revision
  writeByte (.ofNat s.count)
  writeBytes (← beyond (Octets.big 8 s.authority) 2)
  s.subAuthorities.forM fun sub => writeBytes (Octets.little 4 sub.toNat)

/-- How an identifier gets into bytes. -/
def form (s : Sid) : Buffer.Form := ⟨s.measure, s.write⟩

end Sid

/-! ### Entries -/

namespace Entry

/-- Writes the header of an entry of the given size. -/
def writeHeader (entry : Entry) (size : Nat) : Buffer.InPlace Unit := do
  writeByte entry.code
  writeByte (.ofNat entry.flags.bits.toNat)
  writeBytes (Octets.little 2 size)

/-- Writes what follows the header. -/
def writeBody : Body → Buffer.InPlace Unit
  | .common rule => do
      writeBytes (Octets.little 4 rule.mask.toNat)
      rule.sid.write
      writeBytes rule.extra
  | .object rule target => do
      writeBytes (Octets.little 4 rule.mask.toNat)
      writeBytes (Octets.little 4 target.word.toNat)
      target.guids.forM fun guid => writeBytes guid.encode
      rule.sid.write
      writeBytes rule.extra
  | .compound mask sid => do
      writeBytes (Octets.little 4 mask.toNat)
      writeBytes (Octets.little 2 compoundForm)
      writeBytes (Octets.little 2 0)
      sid.write
  | .custom _ extra => writeBytes extra

/-- Writes an entry. -/
def write (entry : Entry) : Buffer.InPlace Unit := do
  entry.writeHeader (← entry.body.measure)
  writeBody entry.body

/-- How an entry gets into bytes. -/
def form (entry : Entry) : Buffer.Form := ⟨entry.body.measure, entry.write⟩

end Entry

/-! ### Lists -/

namespace AccessList

/-- The number of bytes of the binary form. -/
def measure (list : AccessList) : Checked Nat := do
  let total ← list.entries.foldlM (fun total entry => do add total (← entry.body.measure)) 0
  add headerSize total

/-- Writes a list. -/
def write (list : AccessList) : Buffer.InPlace Unit := do
  writeByte list.revision
  writeByte 0
  writeBytes (Octets.little 2 (← list.measure))
  writeBytes (Octets.little 2 list.count)
  writeBytes (Octets.little 2 0)
  list.entries.forM Entry.write

/-- How a list gets into bytes. -/
def form (list : AccessList) : Buffer.Form := ⟨list.measure, list.write⟩

end AccessList

/-! ### Descriptors -/

namespace Descriptor

/-- The number of bytes of a component; none if there is no component. -/
def measureComponent {α : Type} (measure : α → Checked Nat) : Option α → Checked Nat
  | none => return 0
  | some a => measure a

/-- The number of bytes of the binary form. -/
def measure (d : Descriptor) : Checked Nat := do
  let total ← add headerSize (← measureComponent Sid.measure d.owner)
  let total ← add total (← measureComponent Sid.measure d.group)
  let total ← add total (← measureComponent AccessList.measure d.sacl)
  add total (← measureComponent AccessList.measure d.dacl.stored?)

/-- Fills in the slot that is `place` bytes into the descriptor that starts at `base`: the component
that comes next begins where the vector ends. -/
def record (base place : Nat) : Buffer.InPlace Unit := do
  let start ← sub (← length) base
  store (← add base place) (Octets.little 4 start)

/-- Writes a component and fills in its slot; without a component the slot stays empty. -/
def writeComponent {α : Type} (write : α → Buffer.InPlace Unit) (base place : Nat) :
    Option α → Buffer.InPlace Unit
  | none => return ()
  | some a => do
      record base place
      write a

/-- Writes a descriptor. -/
def write (d : Descriptor) : Buffer.InPlace Unit := do
  let base ← length
  writeByte revision
  writeByte (d.resourceManager.getD 0)
  writeBytes (Octets.little 2 d.control.bits.toNat)
  writeBytes (List.replicate (headerSize - 4) 0)
  writeComponent Sid.write base 4 d.owner
  writeComponent Sid.write base 8 d.group
  writeComponent AccessList.write base 12 d.sacl
  writeComponent AccessList.write base 16 d.dacl.stored?

/-- How a descriptor gets into bytes. -/
def form (d : Descriptor) : Buffer.Form := ⟨d.measure, d.write⟩

end Descriptor

end SecurityDescriptor
