/-
The control word of a security descriptor.

All sixteen bits have names.  A word is therefore known once it is known which flags are set, and
statements about control words are statements about flags.

Main definitions:

* `ControlFlag`, `Control` — a flag, and the control word;
* `Control.has`, `Control.put` — testing and setting one flag.

Main results:

* `Control.ext_has` — **a control word is its flags**;
* `Control.has_put` — putting a flag changes that flag and no other;
* `Control.has_union` — a flag is in a union if it is in either word.
-/

import SecurityDescriptor.Bits

set_option relaxedAutoImplicit false
set_option autoImplicit false

namespace SecurityDescriptor

/-- A flag of the control word. -/
inductive ControlFlag
  | ownerDefaulted
  | groupDefaulted
  | daclPresent
  | daclDefaulted
  | saclPresent
  | saclDefaulted
  | daclUntrusted
  | serverSecurity
  | daclAutoInheritRequired
  | saclAutoInheritRequired
  | daclAutoInherited
  | saclAutoInherited
  | daclProtected
  | saclProtected
  | resourceManagerValid
  | selfRelative
  deriving DecidableEq, Repr

/-- The position of a flag in the control word. -/
def ControlFlag.bit : ControlFlag → Nat
  | ownerDefaulted => 0
  | groupDefaulted => 1
  | daclPresent => 2
  | daclDefaulted => 3
  | saclPresent => 4
  | saclDefaulted => 5
  | daclUntrusted => 6
  | serverSecurity => 7
  | daclAutoInheritRequired => 8
  | saclAutoInheritRequired => 9
  | daclAutoInherited => 10
  | saclAutoInherited => 11
  | daclProtected => 12
  | saclProtected => 13
  | resourceManagerValid => 14
  | selfRelative => 15

theorem ControlFlag.bit_lt (flag : ControlFlag) : flag.bit < 16 := by cases flag <;> decide

theorem ControlFlag.bit_inj {a b : ControlFlag} : a.bit = b.bit ↔ a = b := by
  constructor
  · cases a <;> cases b <;> simp [bit]
  · rintro rfl
    rfl

theorem ControlFlag.exists_bit_eq {i : Nat} (h : i < 16) : ∃ flag : ControlFlag, flag.bit = i := by
  match i, h with
  | 0, _ => exact ⟨ownerDefaulted, rfl⟩
  | 1, _ => exact ⟨groupDefaulted, rfl⟩
  | 2, _ => exact ⟨daclPresent, rfl⟩
  | 3, _ => exact ⟨daclDefaulted, rfl⟩
  | 4, _ => exact ⟨saclPresent, rfl⟩
  | 5, _ => exact ⟨saclDefaulted, rfl⟩
  | 6, _ => exact ⟨daclUntrusted, rfl⟩
  | 7, _ => exact ⟨serverSecurity, rfl⟩
  | 8, _ => exact ⟨daclAutoInheritRequired, rfl⟩
  | 9, _ => exact ⟨saclAutoInheritRequired, rfl⟩
  | 10, _ => exact ⟨daclAutoInherited, rfl⟩
  | 11, _ => exact ⟨saclAutoInherited, rfl⟩
  | 12, _ => exact ⟨daclProtected, rfl⟩
  | 13, _ => exact ⟨saclProtected, rfl⟩
  | 14, _ => exact ⟨resourceManagerValid, rfl⟩
  | 15, _ => exact ⟨selfRelative, rfl⟩
  | n + 16, h => exact absurd h (by omega)

/-- The control word of a descriptor. -/
structure Control where
  bits : BitVec 16
  deriving DecidableEq, Repr

namespace Control

/-- The word without flags. -/
def none : Control := ⟨0⟩

/-- Whether a flag is set. -/
def has (control : Control) (flag : ControlFlag) : Bool := control.bits.getLsbD flag.bit

/-- The word with one flag set or cleared. -/
def put (control : Control) (flag : ControlFlag) (value : Bool) : Control :=
  ⟨Bits.put control.bits flag.bit value⟩

/-- The word with the flags of both. -/
def union (a b : Control) : Control := ⟨a.bits ||| b.bits⟩

/-- The word with exactly the given flags. -/
def ofList (flags : List ControlFlag) : Control :=
  flags.foldl (fun control flag => control.put flag true) none

/-- **A control word is its flags.** -/
theorem ext_has {a b : Control} (h : ∀ flag, a.has flag = b.has flag) : a = b := by
  rcases a with ⟨a⟩
  rcases b with ⟨b⟩
  rw [mk.injEq]
  apply BitVec.eq_of_getLsbD_eq
  intro i hi
  obtain ⟨flag, rfl⟩ := ControlFlag.exists_bit_eq hi
  exact h flag

@[simp] theorem has_none (flag : ControlFlag) : none.has flag = false := by
  simp [has, none]

@[simp] theorem has_put (control : Control) (flag : ControlFlag) (value : Bool)
    (other : ControlFlag) :
    (control.put flag value).has other = if flag = other then value else control.has other := by
  simp only [has, put, Bits.getLsbD_put _ flag.bit_lt, ControlFlag.bit_inj]

@[simp] theorem has_union (a b : Control) (flag : ControlFlag) :
    (a.union b).has flag = (a.has flag || b.has flag) := by
  simp only [has, union, BitVec.getLsbD_or]

end Control

end SecurityDescriptor
