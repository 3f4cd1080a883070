/-
Descriptors in files that arrange their components freely.

The writer lays the components out one after another.  Other producers need not: a slot is a distance
from the start of the descriptor, and components may stand in any order, with gaps, on top of each
other, or be shared by two slots.  What is read depends only on what each slot leads to.  A slot that
is not in use is not followed, so it may hold anything, and so may the byte of the resource manager
when its flag is clear.

Main definitions:

* `Descriptor.Frame` — the header of a self-contained descriptor;
* `Descriptor.Leads` — what a slot leads to;
* `Descriptor.Arrangement` — bytes that hold a header and the components that its slots lead to.

Main results:

* `Descriptor.decodeSlot_of_leads` — a slot is read as what it leads to;
* `Descriptor.Arrangement.decodeAt_eq` — **a descriptor is read from any arrangement of its
  components**.
-/

import SecurityDescriptor.Proofs.Descriptor.Layout
import SecurityDescriptor.Proofs.Descriptor.Reachable

set_option relaxedAutoImplicit false
set_option autoImplicit false

namespace SecurityDescriptor

namespace Descriptor

/-! ### The header -/

/-- The header of a descriptor of the known revision. -/
structure Frame where
  resourceManager : UInt8
  control : Control
  owner : UInt32
  group : UInt32
  sacl : UInt32
  dacl : UInt32
  deriving DecidableEq, Repr

/-- The twenty bytes of a header. -/
def Frame.encode (frame : Frame) : List UInt8 :=
  revision :: frame.resourceManager ::
    (Octets.little 2 frame.control.bits.toNat ++
      (Octets.little 4 frame.owner.toNat ++ (Octets.little 4 frame.group.toNat ++
        (Octets.little 4 frame.sacl.toNat ++ Octets.little 4 frame.dacl.toNat))))

/-- A header is read back, whatever follows. -/
theorem Frame.decode?_encode_append (frame : Frame) (rest : List UInt8) :
    Header.decode? (frame.encode ++ rest)
      = some ⟨revision, frame.resourceManager, frame.control, frame.owner.toNat, frame.group.toNat,
          frame.sacl.toNat, frame.dacl.toNat⟩ := by
  have hcontrol : frame.control.bits.toNat % 65536 = frame.control.bits.toNat :=
    Nat.mod_eq_of_lt frame.control.bits.isLt
  have hword : ∀ word : UInt32, word.toNat % 4294967296 = word.toNat :=
    fun word => Nat.mod_eq_of_lt word.toNat_lt
  simp [Header.decode?, Frame.encode, List.append_assoc, hcontrol, hword]

/-! ### Slots -/

/-- **What a slot leads to**, in a descriptor that starts `start` bytes into `bytes`: nothing if it is
zero or not in use, and otherwise a component whose bytes begin where the slot points. -/
inductive Leads {α : Type} (encode : α → List UInt8) (bytes : List UInt8) (start : Nat)
    (inUse : Bool) (slot : UInt32) : Option α → Prop
  | nowhere (h : inUse = false ∨ slot = 0) : Leads encode bytes start inUse slot none
  | component (a : α) (rest : List UInt8) (huse : inUse = true) (hslot : slot ≠ 0)
      (h : bytes.drop (start + slot.toNat) = encode a ++ rest) :
      Leads encode bytes start inUse slot (some a)

variable {α : Type} {encode : α → List UInt8} {bytes : List UInt8} {start : Nat} {inUse : Bool}
  {slot : UInt32} {component : Option α}

/-- A component that a slot leads to is one in use. -/
theorem Leads.isInUse (h : Leads encode bytes start inUse slot component)
    (hsome : component.isSome = true) : inUse = true := by
  cases h with
  | nowhere h => cases hsome
  | component a rest huse hslot h => exact huse

/-- **A slot is read as what it leads to.** -/
theorem decodeSlot_of_leads {decode : Decoder α}
    (hread : ∀ a ∈ component, ∀ rest, decode (encode a ++ rest) = .ok a)
    (h : Leads encode bytes start inUse slot component) :
    decodeSlot decode (bytes.drop start) inUse slot.toNat = .ok component := by
  cases h with
  | nowhere h =>
      rw [decodeSlot, if_neg]
      rintro ⟨huse, hslot⟩
      rcases h with h | h
      · rw [h] at huse
        cases huse
      · exact hslot (congrArg UInt32.toNat h)
  | component a rest huse hslot h =>
      have hne : slot.toNat ≠ 0 := fun hzero => hslot (UInt32.toNat_inj.mp hzero)
      have hfound : decode.startingAt (bytes.drop start) slot.toNat = .ok a := by
        rw [Decoder.startingAt_eq_ok_iff, List.drop_drop, h]
        exact hread a rfl rest
      rw [decodeSlot, if_pos ⟨huse, hne⟩, hfound, Outcome.ok_bind]
      rfl

/-! ### Arrangements -/

/-- The descriptor that a header and components make: the control word as it stands, and the byte of
the resource manager if its flag is set. -/
def Frame.descriptor (frame : Frame) (owner group : Option Sid) (sacl dacl : Option AccessList) :
    Descriptor :=
  { control := frame.control
    owner := owner
    group := group
    sacl := sacl
    dacl := .ofOption dacl
    resourceManager :=
      if frame.control.has .resourceManagerValid then some frame.resourceManager else none }

/-- **Bytes that hold a descriptor from `start` on**: a header, and components anywhere behind the
start where its slots lead to.  Nothing is said about where the components stand to each other. -/
structure Arrangement (bytes : List UInt8) (start : Nat) (frame : Frame) (owner group : Option Sid)
    (sacl dacl : Option AccessList) : Prop where
  header : ∃ rest, bytes.drop start = frame.encode ++ rest
  selfRelative : frame.control.has .selfRelative = true
  reachable : ∀ list : AccessList, list ∈ sacl ∨ list ∈ dacl → list.Reachable
  owner : Leads Sid.encode bytes start true frame.owner owner
  group : Leads Sid.encode bytes start true frame.group group
  sacl : Leads AccessList.encode bytes start (frame.control.has .saclPresent) frame.sacl sacl
  dacl : Leads AccessList.encode bytes start (frame.control.has .daclPresent) frame.dacl dacl

variable {frame : Frame} {owner group : Option Sid} {sacl dacl : Option AccessList}

/-- The control word of an arrangement says what its components say. -/
theorem Arrangement.settled (h : Arrangement bytes start frame owner group sacl dacl) :
    (frame.descriptor owner group sacl dacl).settle = frame.descriptor owner group sacl dacl := by
  refine settle_eq_iff.mpr ⟨h.selfRelative, ?_, h.sacl.isInUse, ?_⟩
  · simp only [Frame.descriptor]
    cases frame.control.has .resourceManagerValid <;> rfl
  · simp only [Frame.descriptor]
    cases hdacl : dacl with
    | none => rfl
    | some list => exact (h.dacl.isInUse (by rw [hdacl]; rfl)).symm

/-- **A descriptor is read from any arrangement of its components.** -/
theorem Arrangement.decodeAt_eq (h : Arrangement bytes start frame owner group sacl dacl) :
    decodeAt bytes start = .ok (frame.descriptor owner group sacl dacl) := by
  obtain ⟨rest, hheader⟩ := h.header
  have hsid : ∀ sid : Sid, ∀ rest, Sid.decode (sid.encode ++ rest) = .ok sid :=
    Sid.decode_encode_append
  have hlist : ∀ list : AccessList, list.Reachable →
      ∀ rest, AccessList.decode (list.encode ++ rest) = .ok list :=
    fun list hlist => AccessList.decode_encode_append hlist.wellFormed
  have howner := decodeSlot_of_leads (fun sid _ => hsid sid) h.owner
  have hgroup := decodeSlot_of_leads (fun sid _ => hsid sid) h.group
  have hsacl := decodeSlot_of_leads
    (fun list hmem => hlist list (h.reachable list (.inl hmem))) h.sacl
  have hdacl := decodeSlot_of_leads
    (fun list hmem => hlist list (h.reachable list (.inr hmem))) h.dacl
  have hread : Header.decode? (bytes.drop start)
      = some ⟨revision, frame.resourceManager, frame.control, frame.owner.toNat,
          frame.group.toNat, frame.sacl.toNat, frame.dacl.toNat⟩ := by
    rw [hheader]
    exact frame.decode?_encode_append rest
  have hrelative : ¬frame.control.has .selfRelative = false := by
    rw [h.selfRelative]
    decide
  have hdecode : decode (bytes.drop start) = .ok (frame.descriptor owner group sacl dacl).settle := by
    rw [decode, hread]
    dsimp only
    rw [if_neg (fun hne => hne rfl), if_neg hrelative, howner, Outcome.ok_bind, hgroup,
      Outcome.ok_bind, hsacl, Outcome.ok_bind, hdacl, Outcome.ok_bind]
    rfl
  rw [decodeAt, Decoder.startingAt_eq_ok_iff, hdecode, h.settled]

/-- A header whose owner and group both lead into the discretionary list, to the identifier of its
entry.  The slot of the system list leads far past the end and is not in use. -/
def crowdedFrame : Frame := ⟨0x77, ⟨0x8004⟩, 36, 36, 0xFFFFFFFF, 20⟩

/-- Two bytes of something else, the header, and the list that grants everyone everything. -/
def crowdedBytes : List UInt8 :=
  [0xAA, 0xBB] ++ (crowdedFrame.encode ++ (fullAccessList false false).encode)

theorem Arrangement.decodeAt_eq_crowded :
    Arrangement crowdedBytes 2 crowdedFrame (some everyone) (some everyone) none
        (some (fullAccessList false false)) ∧
      decodeAt crowdedBytes 2
        = .ok (crowdedFrame.descriptor (some everyone) (some everyone) none
            (some (fullAccessList false false))) := by
  have h : Arrangement crowdedBytes 2 crowdedFrame (some everyone) (some everyone) none
      (some (fullAccessList false false)) :=
    { header := ⟨(fullAccessList false false).encode, rfl⟩
      selfRelative := by decide
      reachable := by
        rintro list (hlist | hlist)
        · cases hlist
        · cases hlist
          exact reachable_fullAccessList false false
      owner := .component everyone [] rfl (by decide) (by decide)
      group := .component everyone [] rfl (by decide) (by decide)
      sacl := .nowhere (.inl (by decide))
      dacl := .component (fullAccessList false false) [] (by decide) (by decide) (by decide) }
  exact ⟨h, h.decodeAt_eq⟩

end Descriptor

end SecurityDescriptor
