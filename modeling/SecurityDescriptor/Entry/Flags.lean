/-
The flags of an entry.

An entry carries eight flag bits; seven of them have names.  All eight are kept.  Three groups of
flags can be looked at on their own, each as a small word with its own numbering: how the entry is
inherited, how far it propagates, and which outcomes it audits.

Main definitions:

* `Flag`, `Flags` — a named flag, and the flags of an entry;
* `Flags.has`, `Flags.put` — testing and setting one flag;
* `Flags.View`, `Flags.inheritance`, `Flags.propagation`, `Flags.audit` — the three groups;
* `Flags.ofInheritance`, `Flags.ofAudit` — flags with the given groups;
* `Flags.render`, `Flags.parse?` — the text of flags.

Main results:

* `Flags.has_put` — **putting a flag changes that flag and no other**;
* `Flags.put_comm`, `Flags.put_put` — the order and the number of times do not matter.
-/

import SecurityDescriptor.Bits
import SecurityDescriptor.Text.Token

set_option relaxedAutoImplicit false
set_option autoImplicit false

namespace SecurityDescriptor

/-- A named flag of an entry. -/
inductive Flag
  | objectInherit
  | containerInherit
  | noPropagate
  | inheritOnly
  | inherited
  | auditSuccess
  | auditFailure
  deriving DecidableEq, Repr

/-- The position of a flag in the flag byte. -/
def Flag.bit : Flag → Nat
  | objectInherit => 0
  | containerInherit => 1
  | noPropagate => 2
  | inheritOnly => 3
  | inherited => 4
  | auditSuccess => 6
  | auditFailure => 7

theorem Flag.bit_lt (flag : Flag) : flag.bit < 8 := by cases flag <;> decide

theorem Flag.bit_inj {a b : Flag} : a.bit = b.bit ↔ a = b := by
  cases a <;> cases b <;> decide

/-- The flags of an entry. -/
structure Flags where
  bits : BitVec 8
  deriving DecidableEq, Repr

namespace Flags

/-- No flag at all. -/
def none : Flags := ⟨0⟩

/-- Whether a flag is set. -/
def has (flags : Flags) (flag : Flag) : Bool := flags.bits.getLsbD flag.bit

/-- The flags with one of them set or cleared. -/
def put (flags : Flags) (flag : Flag) (value : Bool) : Flags :=
  ⟨Bits.put flags.bits flag.bit value⟩

/-- **Putting a flag changes that flag and no other.** -/
@[simp] theorem has_put (flags : Flags) (flag : Flag) (value : Bool) (other : Flag) :
    (flags.put flag value).has other = if flag = other then value else flags.has other := by
  simp only [has, put, Bits.getLsbD_put _ flag.bit_lt, Flag.bit_inj]

theorem put_put (flags : Flags) (flag : Flag) (a b : Bool) :
    (flags.put flag a).put flag b = flags.put flag b := by
  simp only [put, mk.injEq]
  apply BitVec.eq_of_getLsbD_eq
  intro i _
  simp only [Bits.getLsbD_put _ flag.bit_lt]
  split <;> simp_all

theorem put_comm (flags : Flags) {f g : Flag} (h : f ≠ g) (a b : Bool) :
    (flags.put f a).put g b = (flags.put g b).put f a := by
  simp only [put, mk.injEq]
  apply BitVec.eq_of_getLsbD_eq
  intro i _
  simp only [Bits.getLsbD_put _ f.bit_lt, Bits.getLsbD_put _ g.bit_lt]
  split
  · rename_i hg
    have hf : f.bit ≠ i := fun hf => h (Flag.bit_inj.mp (hf.trans hg.symm))
    simp [hf]
  · rfl

/-! ### Groups of flags -/

/-- A group of flags as a word of its own: the flags, each with its position in that word. -/
abbrev View := List (Flag × Nat)

/-- The word of a group. -/
def View.read (view : View) (flags : Flags) : BitVec 8 :=
  view.foldl (fun word field => Bits.put word field.2 (flags.has field.1)) 0

/-- The flags with those of a group replaced by a word; positions without a flag are ignored. -/
def View.write (view : View) (word : BitVec 8) (flags : Flags) : Flags :=
  view.foldl (fun flags field => flags.put field.1 (word.getLsbD field.2)) flags

/-- Who inherits the entry: containers, other objects. -/
def inheritance : View := [(.containerInherit, 0), (.objectInherit, 1)]

/-- How far the entry propagates. -/
def propagation : View := [(.noPropagate, 0), (.inheritOnly, 1)]

/-- Which outcomes of an access are audited. -/
def audit : View := [(.auditSuccess, 0), (.auditFailure, 1)]

/-- The flags with the given inheritance and propagation.  An entry that nobody inherits does not
propagate either, so without any inheritance bit the propagation is dropped. -/
def ofInheritance (inheritanceWord propagationWord : BitVec 8) : Flags :=
  let flags := inheritance.write inheritanceWord none
  if inheritanceWord = 0 then flags else propagation.write propagationWord flags

/-- The flags with the given audit group. -/
def ofAudit (auditWord : BitVec 8) : Flags := audit.write auditWord none

/-! ### Text -/

/-- The tokens of the flags, in the order in which they are written. -/
def tokens : Token.Table Flag :=
  [ ("CI", .containerInherit),
    ("OI", .objectInherit),
    ("NP", .noPropagate),
    ("IO", .inheritOnly),
    ("ID", .inherited),
    ("SA", .auditSuccess),
    ("FA", .auditFailure) ]

/-- The tokens of the flags that are set; the bit without a name is not written. -/
def render (flags : Flags) : List Char :=
  tokens.flatMap fun row => if flags.has row.2 then row.1.toList else []

/-- The flags with all of `list` set. -/
def ofList (list : List Flag) : Flags := list.foldl (fun flags flag => flags.put flag true) none

/-- Reads a run of flag tokens, in any order and with repetitions. -/
def parse? (text : List Char) : Option Flags := (Token.run? tokens text).map ofList

end Flags

end SecurityDescriptor
