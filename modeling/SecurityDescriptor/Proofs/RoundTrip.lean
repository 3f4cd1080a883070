/-
**Binary forms are read back from inside any bytes.**

Identifiers, entries, lists and descriptors are read back from their binary forms, whatever bytes
stand before and behind them.  For identifiers this needs no condition, since the limits are part of
the type.  For the others it holds of all values that can be had: their invariants say that no
length is cut off by its field, that every optional part is announced by its flag, and that the
control flags are settled.  A discretionary list that was made up is not written, and nothing else
is lost.

Main results:

* `decodeAt_encode` — **binary forms are read back from inside any bytes**.
-/

import SecurityDescriptor.Proofs.Descriptor.Layout

set_option relaxedAutoImplicit false
set_option autoImplicit false

namespace SecurityDescriptor

/-- **Binary forms are read back from inside any bytes**: identifiers, and all entries, lists and
descriptors that can be had.  Of a descriptor with a synthetic list everything else is read back. -/
theorem decodeAt_encode :
    (∀ (sid : Sid) (front rest : List UInt8),
      Sid.decodeAt (front ++ sid.encode ++ rest) front.length = .ok sid) ∧
    (∀ entry : Entry, entry.Reachable → ∀ front rest : List UInt8,
      Entry.decodeAt (front ++ entry.encode ++ rest) front.length = .ok entry) ∧
    (∀ list : AccessList, list.Reachable → ∀ front rest : List UInt8,
      AccessList.decodeAt (front ++ list.encode ++ rest) front.length = .ok list) ∧
    (∀ d : Descriptor, d.Reachable → ∀ front rest : List UInt8,
      (d.dacl.isSynthetic = false →
        Descriptor.decodeAt (front ++ d.encode ++ rest) front.length = .ok d) ∧
      (d.dacl.isSynthetic = true →
        Descriptor.decodeAt (front ++ d.encode ++ rest) front.length
          = .ok { d with dacl := .absent })) := by
  refine ⟨?_, ?_, ?_, ?_⟩
  · intro sid front rest
    have hread : ∀ rest, Sid.decode (sid.encode ++ rest) = .ok sid :=
      fun rest => Sid.decode_eq_ok_iff.2 ⟨rest, rfl⟩
    exact Decoder.startingAt_append_append hread front rest
  · intro entry hentry front rest
    have hread : ∀ rest, Entry.decode (entry.encode ++ rest) = .ok entry :=
      Entry.decode_encode_append hentry.wellFormed
    exact Decoder.startingAt_append_append hread front rest
  · intro list hlist front rest
    have hread : ∀ rest, AccessList.decode (list.encode ++ rest) = .ok list :=
      AccessList.decode_encode_append hlist.wellFormed
    exact Decoder.startingAt_append_append hread front rest
  · intro d hd front rest
    have hread : ∀ rest, Descriptor.decode (d.encode ++ rest) = .ok d.stored :=
      Descriptor.decode_encode_append hd.wellFormed
    have hstored := Decoder.startingAt_append_append hread front rest
    refine ⟨?_, ?_⟩
    · intro hreal
      rw [Descriptor.stored_of_not_isSynthetic hreal] at hstored
      exact hstored
    · intro hsynthetic
      rw [Descriptor.stored_of_isSynthetic hsynthetic] at hstored
      exact hstored

/-- An object entry without object types in whose flag word a bit without a meaning is set. -/
def strayEntry : Entry :=
  ⟨⟨0x20⟩, .object ⟨.deny, false, 0x00000100, Descriptor.everyone, []⟩ ⟨none, none, 0x80000000⟩⟩

theorem decodeAt_strayEntry : Entry.decodeAt strayEntry.encode 0 = .ok strayEntry := by decide

/-- A stray bit is kept, in a list as well, and a synthetic list is not written. -/
theorem decodeAt_encode_stray_synthetic :
    Entry.decodeAt ([1, 2] ++ strayEntry.encode ++ [3]) 2 = .ok strayEntry ∧
    AccessList.decodeAt ([1, 2] ++ AccessList.encode ⟨4, [strayEntry]⟩ ++ [3]) 2
      = .ok ⟨4, [strayEntry]⟩ ∧
    Descriptor.decodeAt
        ([1, 2] ++ (Descriptor.make .none none none (some ⟨4, [strayEntry]⟩) none).encode ++ [3]) 2
      = .ok (Descriptor.make .none none none (some ⟨4, [strayEntry]⟩) none) ∧
    Descriptor.decodeAt ([1, 2] ++ (Descriptor.empty.synthesize true true).2.encode ++ [3]) 2
      = .ok { (Descriptor.empty.synthesize true true).2 with dacl := .absent } := by
  have hentry : strayEntry.Reachable := .decoded decodeAt_strayEntry
  have hlist : AccessList.Reachable ⟨4, [strayEntry]⟩ := by
    refine .ofEntries ?_ (AccessList.ofEntries_eq_ok_iff.2 ⟨by decide, rfl⟩)
    intro entry hmem
    rw [List.mem_singleton.1 hmem]
    exact hentry
  have hmade : Descriptor.Reachable
      (Descriptor.make .none none none (some ⟨4, [strayEntry]⟩) none) := by
    refine .made .none none none ?_ (fun _ h => by cases h)
    intro list hmem
    cases hmem
    exact hlist
  have hchange : (Descriptor.Change.synthesize true true).IsProper := trivial
  have hsynthetic : (Descriptor.empty.synthesize true true).2.Reachable :=
    .changed Descriptor.reachable_empty hchange
  exact ⟨decodeAt_encode.2.1 _ hentry [1, 2] [3], decodeAt_encode.2.2.1 _ hlist [1, 2] [3],
    (decodeAt_encode.2.2.2 _ hmade [1, 2] [3]).1 rfl,
    (decodeAt_encode.2.2.2 _ hsynthetic [1, 2] [3]).2 rfl⟩

end SecurityDescriptor
