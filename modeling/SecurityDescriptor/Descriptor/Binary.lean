/-
The binary form of security descriptors.

A header of twenty bytes holds the revision, the control byte of the resource manager, the control
word and four slots.  A slot says how far from the start of the descriptor a component begins; zero
means that there is none.  The components are written without gaps in the order owner, group, system
list, discretionary list.  The reader follows the slots wherever they point, and a list only if its
presence flag is set.

Main definitions:

* `Descriptor.slots` — the slots of components laid out one after another;
* `Descriptor.encode`, `Descriptor.decode` — the binary form and its reader;
* `Descriptor.decodeAt` — the descriptor at an offset.

Main results:

* `Descriptor.length_encode` — **the binary form has `Descriptor.size` bytes**.
-/

import SecurityDescriptor.AccessList.Binary
import SecurityDescriptor.Descriptor.Basic

set_option relaxedAutoImplicit false
set_option autoImplicit false

namespace SecurityDescriptor

namespace Descriptor

/-- The revision of all descriptors. -/
def revision : UInt8 := 1

/-! ### Writing -/

/-- The binary forms of the components, in the order in which they are written. -/
def components (d : Descriptor) : List (Option (List UInt8)) :=
  [ d.owner.map Sid.encode,
    d.group.map Sid.encode,
    d.sacl.map AccessList.encode,
    d.dacl.stored?.map AccessList.encode ]

/-- The slots of components that are laid out one after another from `start` on. -/
def slots : Nat → List (Option (List UInt8)) → List Nat
  | _, [] => []
  | start, none :: components => 0 :: slots start components
  | start, some bytes :: components => start :: slots (start + bytes.length) components

/-- The binary form of a descriptor. -/
def encode (d : Descriptor) : List UInt8 :=
  revision :: d.resourceManager.getD 0 ::
    (Octets.little 2 d.control.bits.toNat ++
      ((slots headerSize d.components).flatMap (Octets.little 4) ++
        d.components.flatMap (·.getD [])))

/-! ### Reading -/

/-- The header of a descriptor. -/
structure Header where
  revision : UInt8
  resourceManager : UInt8
  control : Control
  owner : Nat
  group : Nat
  sacl : Nat
  dacl : Nat
  deriving DecidableEq, Repr

/-- The header at the front of a byte string. -/
def Header.decode? : List UInt8 → Option Header
  | revision :: resourceManager :: rest => do
      let (control, rest) ← Octets.word? 2 rest
      let (owner, rest) ← Octets.word? 4 rest
      let (group, rest) ← Octets.word? 4 rest
      let (sacl, rest) ← Octets.word? 4 rest
      let (dacl, _) ← Octets.word? 4 rest
      return ⟨revision, resourceManager, ⟨BitVec.ofNat 16 control⟩, owner, group, sacl, dacl⟩
  | _ => none

/-- Reads the component that a slot points at, if it is in use and not zero. -/
def decodeSlot {α : Type} (decode : Decoder α) (bytes : List UInt8) (inUse : Bool) (slot : Nat) :
    Except Error (Option α) :=
  if inUse ∧ slot ≠ 0 then do
    let component ← decode.startingAt bytes slot
    return some component
  else
    .ok none

/-- Reads a descriptor. -/
def decode : Decoder Descriptor := fun bytes =>
  match Header.decode? bytes with
  | none => .error (.descriptor .shortHeader 0)
  | some header =>
      if header.revision ≠ revision then
        .error (.descriptor .revision 0)
      else if header.control.has .selfRelative = false then
        .error (.unsupportedForm .absoluteDescriptor "absolute")
      else do
        let owner ← decodeSlot Sid.decode bytes true header.owner
        let group ← decodeSlot Sid.decode bytes true header.group
        let sacl ←
          decodeSlot AccessList.decode bytes (header.control.has .saclPresent) header.sacl
        let dacl ←
          decodeSlot AccessList.decode bytes (header.control.has .daclPresent) header.dacl
        let resourceManager :=
          if header.control.has .resourceManagerValid then some header.resourceManager else none
        return settle ⟨header.control, owner, group, sacl, .ofOption dacl, resourceManager⟩

/-- The descriptor that starts `offset` bytes into `bytes`. -/
def decodeAt (bytes : List UInt8) (offset : Nat) : Except Error Descriptor :=
  Decoder.startingAt decode bytes offset

/-! ### Length -/

theorem length_slots (start : Nat) (components : List (Option (List UInt8))) :
    (slots start components).length = components.length := by
  induction components generalizing start with
  | nil => rfl
  | cons component components ih => cases component <;> simp [slots, ih]

theorem length_flatMap_little (words : List Nat) :
    (words.flatMap (Octets.little 4)).length = 4 * words.length := by
  induction words with
  | nil => rfl
  | cons word words ih =>
    rw [List.flatMap_cons, List.length_append, Octets.length_little, ih, List.length_cons]
    omega

theorem length_component {α : Type} {size : α → Nat} {encode : α → List UInt8}
    (h : ∀ a, (encode a).length = size a) (component : Option α) :
    ((component.map encode).getD []).length = componentSize size component := by
  cases component with
  | none => rfl
  | some a => exact h a

/-- **The binary form of a descriptor has as many bytes as its size says.** -/
@[simp] theorem length_encode (d : Descriptor) : d.encode.length = d.size := by
  simp only [encode, components, List.length_cons, List.length_append, Octets.length_little,
    length_flatMap_little, length_slots, List.flatMap_cons, List.flatMap_nil, List.length_nil,
    length_component Sid.length_encode, length_component AccessList.length_encode, size, headerSize]
  omega

end Descriptor

end SecurityDescriptor
