/-
The program that reads descriptors by position, against the reader.

A slot counts from the start of the descriptor.  The program adds the two before it looks at the
component, and the sum of a slot and a position inside the bytes always fits in a machine word.

Main results:

* `Descriptor.readAt_eq` — **the program comes to what the reader reads** and never traps;
* `Descriptor.readSlot_eq` — no slot is missing from a header, and none leads too far.
-/

import SecurityDescriptor.Proofs.AccessList.Positional

set_option relaxedAutoImplicit false
set_option autoImplicit false

namespace SecurityDescriptor

open Checked

namespace Descriptor

theorem Header.decode?_eq_none {bytes : List UInt8} (h : bytes.length < headerSize) :
    Header.decode? bytes = none := by
  match bytes, h with
  | [], _ | [_], _ => rfl
  | _ :: _ :: rest, h =>
      refine Option.eq_none_iff_forall_ne_some.mpr fun header hheader => ?_
      -- Every field that is read is four or two bytes of the twenty.
      obtain ⟨⟨control, rest₁⟩, hcontrol, hheader⟩ := Option.bind_eq_some_iff.mp hheader
      obtain ⟨⟨owner, rest₂⟩, howner, hheader⟩ := Option.bind_eq_some_iff.mp hheader
      obtain ⟨⟨group, rest₃⟩, hgroup, hheader⟩ := Option.bind_eq_some_iff.mp hheader
      obtain ⟨⟨sacl, rest₄⟩, hsacl, hheader⟩ := Option.bind_eq_some_iff.mp hheader
      obtain ⟨⟨dacl, rest₅⟩, hdacl, -⟩ := Option.bind_eq_some_iff.mp hheader
      obtain ⟨-, rfl⟩ := Octets.word?_eq_some_iff.mp hcontrol
      obtain ⟨-, rfl⟩ := Octets.word?_eq_some_iff.mp howner
      obtain ⟨-, rfl⟩ := Octets.word?_eq_some_iff.mp hgroup
      obtain ⟨-, rfl⟩ := Octets.word?_eq_some_iff.mp hsacl
      obtain ⟨-, rfl⟩ := Octets.word?_eq_some_iff.mp hdacl
      simp only [List.length_cons, List.length_append, Octets.length_little, headerSize] at h
      omega

/-- A header that is there is read field by field. -/
theorem Header.exists_fields {bytes raw rest : List UInt8}
    (h : Octets.split? headerSize bytes = some (raw, rest)) :
    ∃ (header : Header) (control : Nat), Header.decode? bytes = some header ∧
      byte raw 0 = pure header.revision ∧ byte raw 1 = pure header.resourceManager ∧
      word 2 raw 2 = pure control ∧ header.control = ⟨BitVec.ofNat 16 control⟩ ∧
      Octets.littleValue ((raw.drop 4).take 4) = header.owner ∧
      Octets.littleValue ((raw.drop 8).take 4) = header.group ∧
      Octets.littleValue ((raw.drop 12).take 4) = header.sacl ∧
      Octets.littleValue ((raw.drop 16).take 4) = header.dacl := by
  obtain ⟨rfl, hlength⟩ := Octets.split?_eq_some_iff.mp h
  match raw, hlength with
  | [_, _, _, _, _, _, _, _, _, _, _, _, _, _, _, _, _, _, _, _], _ =>
      exact ⟨_, _, rfl, rfl, rfl, rfl, rfl, rfl, rfl, rfl, rfl⟩

/-- No slot is missing from a header, and none leads too far. -/
theorem readSlot_eq {header : List UInt8} {offset place slot : Nat}
    (hlength : header.length = headerSize) (hoffset : offset < sliceLimit)
    (hplace : place + 4 ≤ headerSize)
    (hslot : Octets.littleValue ((header.drop place).take 4) = slot) :
    readSlot header offset place = pure (if slot = 0 then none else some (offset + slot)) := by
  have hroom : sliceLimit + Nat.pow 256 4 ≤ wordLimit := by decide
  have hcut : ((header.drop place).take 4).length = 4 := by
    rw [List.length_take, List.length_drop]
    omega
  have hlt := Octets.littleValue_lt ((header.drop place).take 4)
  rw [hslot, hcut] at hlt
  have hread : read? 4 header place = pure (some slot) := by
    rw [read?_eq (by rw [hlength]; decide) (by decide), Octets.word?, Octets.split?, if_pos hcut,
      ← hslot]
    rfl
  have hsite : offset + place < wordLimit := by
    have hlimit := sliceLimit_add_le
    rw [headerSize] at hplace
    omega
  have hstart : offset + slot < wordLimit := by omega
  rw [readSlot, add_eq hsite, pure_bind, hread, pure_bind, required_some, pure_bind, add?,
    if_pos hstart]
  split <;> rfl

/-- Looking a slot up and reading the component there goes with reading through the slot. -/
theorem readComponent_bind {α β : Type} {read : Nat → Checked α} {decode : Decoder α}
    {bytes header : List UInt8} {offset place slot : Nat}
    (hread : ∀ start, read start = settled (decode.startingAt bytes start))
    (hslot : readSlot header offset place = pure (if slot = 0 then none else some (offset + slot)))
    (inUse : Bool) {f : Option α → Checked β} {g : Option α → Except Error β}
    (h : ∀ component, f component = settled ((g component).mapError (Error.shift offset))) :
    (do
      let component ← readComponent read inUse (← readSlot header offset place)
      f component)
      = settled ((decodeSlot decode (bytes.drop offset) inUse slot >>= g).mapError
        (Error.shift offset)) := by
  rw [hslot, pure_bind, decodeSlot]
  by_cases huse : inUse = true ∧ slot ≠ 0
  · obtain ⟨rfl, hne⟩ := huse
    rw [if_neg hne, if_pos ⟨rfl, hne⟩, readComponent, hread, Decoder.startingAt_add]
    cases decode.startingAt (bytes.drop offset) slot with
    | error e => rfl
    | ok a => exact h (some a)
  · have hnone : readComponent read inUse (if slot = 0 then none else some (offset + slot))
        = pure none := by
      cases inUse with
      | false => rfl
      | true =>
        have hzero : slot = 0 := by simpa using huse
        rw [if_pos hzero]
        rfl
    rw [hnone, pure_bind, if_neg huse]
    exact h none

/-- **The program on a slice reads what the reader reads**, and never traps. -/
theorem readAt_eq {bytes : List UInt8} (hbytes : bytes.length < sliceLimit) (offset : Nat) :
    readAt bytes offset = settled (decodeAt bytes offset) := by
  have hlimit := sliceLimit_add_le
  rw [readAt, slice?_eq hbytes (.inr (by decide)), decodeAt, Decoder.startingAt, decode]
  cases hheader : Octets.split? headerSize (bytes.drop offset) with
  | none =>
      rw [Header.decode?_eq_none (Octets.split?_eq_none_iff.mp hheader)]
      rfl
  | some cut =>
      obtain ⟨raw, rest⟩ := cut
      obtain ⟨hplace, -⟩ := Octets.drop_of_split? (by decide) hheader
      obtain ⟨-, hlength⟩ := Octets.split?_eq_some_iff.mp hheader
      obtain ⟨header, control, hread, hrevision, hmanager, hword, hcontrol, howner, hgroup, hsacl,
        hdacl⟩ := Header.exists_fields hheader
      have hoffset : offset < sliceLimit := by omega
      rw [hread, Option.map_some, required_some, pure_bind, hrevision, pure_bind]
      dsimp only
      split
      · rfl
      rw [hmanager, pure_bind, hword, pure_bind, ← hcontrol]
      split
      · rfl
      refine readComponent_bind (Sid.readAt_eq hbytes)
        (readSlot_eq hlength hoffset (by decide) howner) true fun owner => ?_
      refine readComponent_bind (Sid.readAt_eq hbytes)
        (readSlot_eq hlength hoffset (by decide) hgroup) true fun group => ?_
      refine readComponent_bind (AccessList.readAt_eq hbytes)
        (readSlot_eq hlength hoffset (by decide) hsacl) _ fun sacl => ?_
      refine readComponent_bind (AccessList.readAt_eq hbytes)
        (readSlot_eq hlength hoffset (by decide) hdacl) _ fun dacl => ?_
      rfl

end Descriptor

end SecurityDescriptor
