/-
Security descriptors in self-relative form.

A descriptor names an owner and a group, and has a system and a discretionary list.  Any of them may
be missing.  A missing discretionary list may be stood in for by a synthetic one that grants
everyone everything: it can be looked at, is not stored, and becomes a list like any other once it
is taken up for editing.

Some control flags follow from the components.  After every change that could upset them they are
settled again: the descriptor is self-relative, a list that is there is marked as present, a
synthetic list is not, and the control byte of the resource manager is marked as valid exactly when
there is one.  For a missing list the presence flag is kept as given; it then means a null list.

Main definitions:

* `Dacl`, `Descriptor` — the discretionary list in its three states, and the descriptor;
* `Descriptor.settle` — the descriptor with the dependent control flags put right;
* `Descriptor.make`, `Descriptor.empty` — descriptors from their components;
* `Descriptor.withControl`, `Descriptor.withOwner`, `Descriptor.withGroup`, `Descriptor.withSacl`,
  `Descriptor.withDacl`, `Descriptor.withResourceManager` — descriptors with one part replaced;
* `Descriptor.synthesize`, `Descriptor.adoptDacl` — standing in for a missing list, and taking it
  up;
* `Descriptor.editDacl`, `Descriptor.editSacl` — edits of a list in place;
* `Descriptor.size` — the number of bytes of the binary form.

Main results:

* `Descriptor.settle_settle` — **settling twice is settling once**.
-/

import SecurityDescriptor.AccessList.Basic
import SecurityDescriptor.Descriptor.Control

set_option relaxedAutoImplicit false
set_option autoImplicit false

namespace SecurityDescriptor

/-- The discretionary list of a descriptor. -/
inductive Dacl
  | absent
  | present (list : AccessList)
  /-- A list made up for a missing one; it is not stored. -/
  | synthetic (list : AccessList)
  deriving DecidableEq, Repr

namespace Dacl

/-- The list that can be looked at. -/
def list? : Dacl → Option AccessList
  | absent => none
  | present list => some list
  | synthetic list => some list

/-- The list that is stored. -/
def stored? : Dacl → Option AccessList
  | absent => none
  | present list => some list
  | synthetic _ => none

/-- A list that is stored, or none. -/
def ofOption : Option AccessList → Dacl
  | none => absent
  | some list => present list

/-- Whether the list was made up. -/
def isSynthetic : Dacl → Bool
  | synthetic _ => true
  | _ => false

end Dacl

/-- A security descriptor. -/
structure Descriptor where
  control : Control
  owner : Option Sid
  group : Option Sid
  sacl : Option AccessList
  dacl : Dacl
  resourceManager : Option UInt8
  deriving DecidableEq, Repr

namespace Descriptor

/-! ### Control flags that follow from the components -/

/-- The presence flag of the discretionary list, given the one that was there. -/
def daclFlag (dacl : Dacl) (given : Bool) : Bool :=
  match dacl with
  | .absent => given
  | .present _ => true
  | .synthetic _ => false

/-- The control word that goes with the components of a descriptor. -/
def settledControl (d : Descriptor) : Control :=
  let control := d.control.put .selfRelative true
  let control := control.put .resourceManagerValid d.resourceManager.isSome
  let control := control.put .saclPresent (d.sacl.isSome || control.has .saclPresent)
  control.put .daclPresent (daclFlag d.dacl (control.has .daclPresent))

/-- The descriptor with the dependent control flags put right. -/
def settle (d : Descriptor) : Descriptor := { d with control := d.settledControl }

/-- **Settling twice is settling once.** -/
theorem settle_settle (d : Descriptor) : d.settle.settle = d.settle := by
  rcases d with ⟨control, owner, group, sacl, dacl, resourceManager⟩
  simp only [settle, settledControl, mk.injEq, and_true]
  apply Control.ext_has
  intro flag
  cases flag <;> cases dacl <;> cases sacl <;> simp [daclFlag]

/-! ### Descriptors from their components -/

/-- The descriptor with the given control flags and components. -/
def make (control : Control) (owner group : Option Sid) (sacl dacl : Option AccessList) :
    Descriptor :=
  settle ⟨control, owner, group, sacl, .ofOption dacl, none⟩

/-- The descriptor without components. -/
def empty : Descriptor := make .none none none none none

/-! ### Replacing a part -/

/-- The descriptor with another control word, as far as the components allow. -/
def withControl (d : Descriptor) (control : Control) : Descriptor :=
  settle { d with control := control }

/-- The descriptor with another owner. -/
def withOwner (d : Descriptor) (owner : Option Sid) : Descriptor := { d with owner := owner }

/-- The descriptor with another group. -/
def withGroup (d : Descriptor) (group : Option Sid) : Descriptor := { d with group := group }

/-- The descriptor with another system list.  Taking the list away also takes away the mark of its
presence. -/
def withSacl (d : Descriptor) (sacl : Option AccessList) : Descriptor :=
  let control := if sacl.isNone then d.control.put .saclPresent false else d.control
  settle { d with control := control, sacl := sacl }

/-- The descriptor with another discretionary list.  Taking the list away also takes away the mark
of its presence. -/
def withDacl (d : Descriptor) (dacl : Option AccessList) : Descriptor :=
  let control := if dacl.isNone then d.control.put .daclPresent false else d.control
  settle { d with control := control, dacl := .ofOption dacl }

/-- The descriptor with another control byte of the resource manager. -/
def withResourceManager (d : Descriptor) (byte : Option UInt8) : Descriptor :=
  settle { d with resourceManager := byte }

/-! ### The synthetic list -/

/-- Everyone: the identifier `S-1-1-0`. -/
def everyone : Sid := { authority := 1, subAuthorities := [0] }

/-- The entry that allows everyone everything; on a container it is inherited by
everything inside. -/
def fullAccess (container : Bool) : Entry :=
  { flags := if container then Flags.ofList [.objectInherit, .containerInherit] else .none
    body := .common ⟨.allow, false, 0xFFFFFFFF, everyone, []⟩ }

/-- The list that grants everyone everything. -/
def fullAccessList (directory container : Bool) : AccessList :=
  { revision := if directory then AccessList.directoryRevision else AccessList.plainRevision
    entries := [fullAccess container] }

/-- The descriptor with a synthetic list in place of a missing one, and whether it was missing. -/
def synthesize (d : Descriptor) (directory container : Bool) : Bool × Descriptor :=
  match d.dacl with
  | .absent => (true, settle { d with dacl := .synthetic (fullAccessList directory container) })
  | _ => (false, d)

/-- The descriptor with a synthetic list taken up as its own. -/
def adoptDacl (d : Descriptor) : Descriptor :=
  match d.dacl with
  | .synthetic list => settle { d with dacl := .present list }
  | _ => d

/-! ### Editing lists in place -/

/-- The descriptor with its discretionary list edited; a synthetic list is taken up first. -/
def editDacl (d : Descriptor) (edit : AccessList → AccessList) : Descriptor :=
  let adopted := d.adoptDacl
  match adopted.dacl with
  | .present list => { adopted with dacl := .present (edit list) }
  | _ => adopted

/-- The descriptor with its system list edited. -/
def editSacl (d : Descriptor) (edit : AccessList → AccessList) : Descriptor :=
  { d with sacl := d.sacl.map edit }

/-! ### Size -/

/-- The number of bytes before the components. -/
def headerSize : Nat := 20

/-- The number of bytes of a component that may be missing. -/
def componentSize {α : Type} (size : α → Nat) (component : Option α) : Nat :=
  (component.map size).getD 0

/-- The number of bytes of a descriptor: the header and the components that are stored. -/
def size (d : Descriptor) : Nat :=
  headerSize + componentSize Sid.size d.owner + componentSize Sid.size d.group
    + componentSize AccessList.size d.sacl + componentSize AccessList.size d.dacl.stored?

end Descriptor

end SecurityDescriptor
