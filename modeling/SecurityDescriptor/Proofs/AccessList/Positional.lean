/-
The programs that read lists by position, against the reader.

The loop over the entries keeps its cursor inside the list: an entry is only passed if its declared
size fits, and no step is greater than that.

Main results:

* `AccessList.readAt_eq` — **the program comes to what the reader reads** and never traps;
* `AccessList.readEntries_eq` — the same for the entries, from any cursor in the list.
-/

import SecurityDescriptor.Proofs.Entry.Positional

set_option relaxedAutoImplicit false
set_option autoImplicit false

namespace SecurityDescriptor

open Checked

namespace AccessList

theorem stride_le (revision : UInt8) {declared actual : Nat} (h : actual ≤ declared) :
    stride revision declared actual ≤ declared := by
  rw [stride]
  split
  · exact Nat.le_refl declared
  · exact h

/-- The size that an entry declares is looked up two bytes into its header. -/
theorem read?_size_eq {scope : List UInt8} (hscope : scope.length < sliceLimit) (cursor : Nat) :
    read? 2 scope (cursor + 2)
      = pure ((Entry.Header.decode? (scope.drop cursor)).map Entry.Header.size) := by
  rw [read?_eq hscope (by decide), ← List.drop_drop]
  match scope.drop cursor with
  | [] | [_] => rfl
  | code :: flags :: view => simp [Entry.Header.decode?, Function.comp_def]

theorem readEntries_eq {revision : UInt8} {scope : List UInt8} {offset : Nat}
    (hscope : scope.length < sliceLimit) {count start total : Nat}
    (hstart : offset + start ≤ scope.length) (htotal : total ≤ maxSize) :
    readEntries revision scope count (offset + start) total = settled
      ((decodeEntries revision count start total (scope.drop (offset + start))).mapError
        (Error.shift offset)) := by
  have hlimit := sliceLimit_add_le
  induction count generalizing start total with
  | zero => rfl
  | succ count ih =>
      rw [readEntries, decodeEntries, add_eq (by omega), pure_bind, read?_size_eq hscope, pure_bind]
      generalize hview : scope.drop (offset + start) = view
      have hlength := congrArg List.length hview
      rw [List.length_drop] at hlength
      cases hheader : Entry.Header.decode? view with
      | none => rfl
      | some header =>
          obtain ⟨hdeclared, -⟩ := Entry.Header.decode?_eq_some_iff.mp hheader
          have hcut : Octets.split? header.size view = none
              ↔ scope.length < offset + start + header.size := by
            rw [Octets.split?_eq_none_iff]
            omega
          rw [Option.map_some, required_some, pure_bind, add_eq (by omega), pure_bind]
          simp only [hcut]
          split
          · rfl
          rename_i hend
          split
          · rfl
          rw [Entry.readAt_eq hscope, Entry.decodeAt, Decoder.startingAt, hview]
          cases hread : Entry.decode view with
          | error e =>
              exact congrArg (fun e => (throw e : Checked (List Entry)))
                (Error.shift_shift offset start e).symm
          | ok entry =>
              -- The next entry begins before the end of this one's declared size.
              have hsize := Entry.size_le_of_decode hheader hread
              have hstride := stride_le revision hsize
              simp only [Outcome.mapError_ok, settled_ok, pure_bind, Outcome.ok_bind]
              rw [Body.measure_eq (by rw [← Entry.size]; omega), pure_bind, ← Entry.size,
                add_eq (by simp only [maxSize] at htotal; omega), pure_bind]
              split
              · rfl
              · rename_i hfit
                rw [add_eq (by omega), pure_bind, Nat.add_assoc offset, ih (by omega) (by omega),
                  ← hview, List.drop_drop, Nat.add_assoc offset]
                cases decodeEntries revision count (start + stride revision header.size entry.size)
                  (total + entry.size)
                  (scope.drop (offset + (start + stride revision header.size entry.size))) <;> rfl

theorem Header.decode?_eq_none {bytes : List UInt8} (h : bytes.length < headerSize) :
    Header.decode? bytes = none := by
  match bytes, h with
  | [], _ | [_], _ | [_, _], _ | [_, _, _], _ | [_, _, _, _], _ | [_, _, _, _, _], _
  | [_, _, _, _, _, _], _ | [_, _, _, _, _, _, _], _ => rfl

/-- A header that is there is read field by field. -/
theorem Header.exists_fields {bytes header rest : List UInt8}
    (h : Octets.split? headerSize bytes = some (header, rest)) :
    ∃ revision declared count, byte header 0 = pure revision ∧ word 2 header 2 = pure declared ∧
      word 2 header 4 = pure count ∧ Header.decode? bytes = some ⟨revision, declared, count⟩ := by
  obtain ⟨rfl, hlength⟩ := Octets.split?_eq_some_iff.mp h
  match header, hlength with
  | [revision, _, s₀, s₁, c₀, c₁, _, _], _ =>
      exact ⟨revision, Octets.littleValue [s₀, s₁], Octets.littleValue [c₀, c₁], rfl, rfl, rfl, rfl⟩

/-- **The program on a slice reads what the reader reads**, and never traps. -/
theorem readAt_eq {bytes : List UInt8} (hbytes : bytes.length < sliceLimit) (offset : Nat) :
    readAt bytes offset = settled (decodeAt bytes offset) := by
  have hlimit := sliceLimit_add_le
  rw [readAt, slice?_eq hbytes (.inr (by decide)), decodeAt, Decoder.startingAt, decode]
  cases hheader : Octets.split? headerSize (bytes.drop offset) with
  | none =>
      rw [Header.decode?_eq_none (Octets.split?_eq_none_iff.mp hheader)]
      rfl
  | some cut =>
      obtain ⟨header, rest⟩ := cut
      obtain ⟨hplace, -⟩ := Octets.drop_of_split? (by decide) hheader
      obtain ⟨revision, declared, count, hrevision, hsize, hcount, hread⟩ :=
        Header.exists_fields hheader
      rw [hread, Option.map_some, required_some, pure_bind, hrevision, pure_bind, hsize, pure_bind,
        hcount, pure_bind, sub_eq (by omega), pure_bind]
      dsimp only
      cases hcut : Octets.split? declared (bytes.drop offset) with
      | none =>
          have hshort := Octets.split?_eq_none_iff.mp hcut
          rw [List.length_drop] at hshort
          rw [if_pos hshort, add_eq (by omega)]
          rfl
      | some cut =>
          obtain ⟨scope, tail⟩ := cut
          obtain ⟨hfits, hlong, hpiece⟩ := Octets.take_of_split? (by omega) hcut
          -- The list in place: the bytes up to its end.
          have hdrop : (bytes.take (offset + declared)).drop (offset + headerSize)
              = scope.drop headerSize := by
            rw [← List.drop_drop, hpiece]
          rw [if_neg (by omega)]
          dsimp only
          split
          · rw [add_eq (by omega)]
            rfl
          · rename_i hheaded
            rw [add_eq (by omega), pure_bind, upTo_eq (by omega), pure_bind, add_eq (by omega),
              pure_bind, readEntries_eq (by omega) (by omega) (by decide), hdrop]
            cases decodeEntries revision count headerSize headerSize (scope.drop headerSize) <;> rfl

end AccessList

end SecurityDescriptor
