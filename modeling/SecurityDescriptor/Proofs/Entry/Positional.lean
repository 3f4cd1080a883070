/-
The programs that read entries by position, against the reader.

A body is read in a slice that ends where the entry ends, so its positions are those of the slice
while the reader counts from the start of the entry.  Program and reader are taken through the parts
of a body side by side: each `..._bind` lemma passes one part and leaves the program standing at the
position where the reader's remaining bytes begin.

Main results:

* `Entry.readAt_eq` — **the program comes to what the reader reads** and never traps;
* `Entry.readCommon_eq`, `Entry.readObject_eq`, `Entry.readCompound_eq`, `Entry.readCustom_eq` — the
  same for the four bodies;
* `Entry.size_le_of_decode` — an entry is not greater than it declares.
-/

import SecurityDescriptor.Proofs.Entry.Spelling
import SecurityDescriptor.Proofs.Sid.Positional

set_option relaxedAutoImplicit false
set_option autoImplicit false

namespace SecurityDescriptor

open Checked

/-! ### Object types -/

namespace Guid

/-- A GUID is taken out of its place without a trap. -/
theorem readPacked_eq {bytes raw rest : List UInt8} (h : Octets.split? size bytes = some (raw, rest)) :
    ∃ guid, fill size raw = pure raw ∧ readPacked raw = pure guid ∧
      decode? bytes = some (guid, rest) := by
  obtain ⟨rfl, hlength⟩ := Octets.split?_eq_some_iff.mp h
  match raw, hlength with
  | [_, _, _, _, _, _, _, _, _, _, _, _, _, _, _, _], _ => exact ⟨_, rfl, rfl, rfl⟩

theorem decode?_eq_none {bytes : List UInt8} (h : Octets.split? size bytes = none) :
    decode? bytes = none := by
  cases hread : decode? bytes with
  | none => rfl
  | some read =>
      obtain ⟨guid, rest⟩ := read
      have hbytes := congrArg List.length (decode?_eq_some_iff.mp hread)
      have hshort := Octets.split?_eq_none_iff.mp h
      rw [List.length_append, length_encode] at hbytes
      omega

end Guid

namespace Body

/-- A size is worked out without a trap as long as it fits. -/
theorem measure_eq {body : Body} (h : body.size < wordLimit) : body.measure = pure body.size := by
  cases body with
  | common rule =>
      rw [size] at h
      rw [measure, Sid.measure_eq, pure_bind, add_eq (by omega), pure_bind, add_eq h]
      rfl
  | object rule target =>
      have hguids : target.guids.length * Guid.size = Guid.size * target.guids.length :=
        Nat.mul_comm ..
      rw [size] at h
      rw [measure, mul_eq (by omega), pure_bind, hguids, add_eq (by omega), pure_bind,
        Sid.measure_eq, pure_bind, add_eq (by omega), pure_bind, add_eq h]
      rfl
  | compound mask sid =>
      rw [measure, Sid.measure_eq, pure_bind, add_eq h]
      rfl
  | custom code extra => exact add_eq h

end Body

namespace Entry

/-! Each step of a program goes with a step of the reader: where one fails, so does the other, and
where both go on, the program stands where the reader's bytes begin. -/

section Steps

variable {β : Type} {entry rest : List UInt8} {offset start : Nat}

theorem readMask_bind (hentry : entry.length < sliceLimit) (hoffset : offset ≤ entry.length)
    (fault : EntryFault) {f : Nat → Checked β} {g : Mask × List UInt8 → Except Error β}
    (h : ∀ mask, offset + 8 ≤ entry.length → f mask
      = settled ((g (.ofNat mask, entry.drop (offset + 8))).mapError (Error.shift offset))) :
    (do
      let mask ← required (← read? 4 entry (← add offset headerSize)) (.entry fault offset)
      f mask) = settled ((decodeMask fault (entry.drop (offset + headerSize)) >>= g).mapError
        (Error.shift offset)) := by
  have hlimit := sliceLimit_add_le
  rw [add_eq (by rw [headerSize]; omega), pure_bind, read?_eq hentry (by decide), pure_bind,
    decodeMask]
  cases hmask : Octets.word? 4 (entry.drop (offset + headerSize)) with
  | none => rfl
  | some read =>
      obtain ⟨mask, rest⟩ := read
      obtain ⟨hplace, rfl⟩ := Octets.drop_of_word? (by decide) hmask
      exact h mask hplace

theorem readSid_bind (hentry : entry.length < sliceLimit)
    (hrest : entry.drop (offset + start) = rest) {f : Sid → Checked β}
    {g : Sid × List UInt8 → Except Error β}
    (h : ∀ sid : Sid, offset + start + sid.size ≤ entry.length → f sid
      = settled ((g (sid, entry.drop (offset + start + sid.size))).mapError
        (Error.shift offset))) :
    (Sid.readAt entry (offset + start) >>= f)
      = settled ((decodeSid start rest >>= g).mapError (Error.shift offset)) := by
  rw [Sid.readAt_eq hentry, Sid.decodeAt, Decoder.startingAt, hrest, decodeSid]
  cases hsid : Sid.decode rest with
  | error e =>
      exact congrArg (fun e => (throw e : Checked β)) (Error.shift_shift offset start e).symm
  | ok sid =>
      obtain ⟨hend, hdrop⟩ := Sid.place_of_decode hrest hsid
      have hnext := h sid hend
      rw [hdrop] at hnext
      exact hnext

theorem readGuid_bind (hentry : entry.length < sliceLimit) (hplace : offset + start ≤ entry.length)
    (stored : Bool) {f : Option Guid × Nat → Checked β}
    {g : Option Guid × List UInt8 → Except Error β}
    (h : ∀ (guid : Option Guid) (next : Nat), next = start + Guid.size * guid.toList.length →
      offset + next ≤ entry.length → f (guid, offset + next)
        = settled ((g (guid, entry.drop (offset + next))).mapError (Error.shift offset))) :
    (readGuid stored entry (offset + start) >>= f)
      = settled ((decodeGuid stored start (entry.drop (offset + start)) >>= g).mapError
        (Error.shift offset)) := by
  have hlimit := sliceLimit_add_le
  cases stored with
  | false => exact h none start rfl hplace
  | true =>
      rw [readGuid, if_pos rfl, decodeGuid, if_pos rfl, slice?_eq hentry (.inl hplace)]
      cases hcut : Octets.split? Guid.size (entry.drop (offset + start)) with
      | none =>
          rw [Guid.decode?_eq_none hcut]
          rfl
      | some cut =>
          obtain ⟨raw, rest⟩ := cut
          obtain ⟨guid, hfill, hguid, hread⟩ := Guid.readPacked_eq hcut
          obtain ⟨hend, rfl⟩ := Octets.drop_of_split? (by decide) hcut
          rw [hread, Option.map_some, required_some, pure_bind, add_eq (by omega), pure_bind, hfill,
            pure_bind, hguid, pure_bind]
          exact h (some guid) (start + Guid.size) rfl hend

end Steps

variable {entry : List UInt8} {offset : Nat}

/-- The body of a common entry is read as the reader reads it. -/
theorem readCommon_eq (hentry : entry.length < sliceLimit) (hoffset : offset ≤ entry.length)
    (qualifier : Qualifier) (callback : Bool) :
    readCommon qualifier callback entry offset = settled
      ((decodeCommon qualifier callback (entry.drop (offset + headerSize))).mapError
        (Error.shift offset)) := by
  have hlimit := sliceLimit_add_le
  refine readMask_bind hentry hoffset .maskMissing fun mask hmask => ?_
  rw [add_eq (by omega), pure_bind]
  refine readSid_bind hentry rfl fun sid hsid => ?_
  have hfixed : 8 + sid.size < wordLimit := by omega
  have hplace : offset + (8 + sid.size) ≤ entry.length := by omega
  rw [Sid.measure_eq, pure_bind, add_eq hfixed, pure_bind, add_eq (by omega), pure_bind,
    beyond_eq hplace, pure_bind, Nat.add_assoc offset]
  dsimp only
  split
  · rfl
  · rfl

/-- The body of an object entry is read as the reader reads it. -/
theorem readObject_eq (hentry : entry.length < sliceLimit) (hoffset : offset ≤ entry.length)
    (qualifier : Qualifier) (callback : Bool) :
    readObject qualifier callback entry offset = settled
      ((decodeObject qualifier callback (entry.drop (offset + headerSize))).mapError
        (Error.shift offset)) := by
  have hlimit := sliceLimit_add_le
  rw [readObject, sub_eq hoffset, pure_bind]
  refine readMask_bind hentry hoffset .objectMaskMissing fun mask hmask => ?_
  rw [add_eq (by omega), pure_bind, read?_eq hentry (by decide), pure_bind]
  dsimp only
  cases hword : Octets.word? 4 (entry.drop (offset + 8)) with
  | none => rfl
  | some read =>
      obtain ⟨word, rest⟩ := read
      obtain ⟨hplace, rfl⟩ := Octets.drop_of_word? (by decide) hword
      rw [Option.map_some, required_some, pure_bind, add_eq (by omega), pure_bind]
      have hstart : offset + 8 + 4 = offset + 12 := rfl
      rw [hstart] at hplace ⊢
      dsimp only
      refine readGuid_bind hentry hplace _ fun objectType start hstart hplace => ?_
      dsimp only
      rw [← hstart]
      refine readGuid_bind hentry hplace _ fun inheritedType cursor hcursor hplace => ?_
      dsimp only
      rw [← hcursor]
      refine readSid_bind hentry rfl fun sid hsid => ?_
      have hfixed : cursor + sid.size < wordLimit := by omega
      have hend : offset + (cursor + sid.size) ≤ entry.length := by omega
      have hcursor : offset + cursor - offset = cursor := Nat.add_sub_cancel_left ..
      rw [sub_eq (Nat.le_add_right ..), pure_bind, Sid.measure_eq, pure_bind, hcursor,
        add_eq hfixed, pure_bind, add_eq (by omega), pure_bind, beyond_eq hend, pure_bind,
        Nat.add_assoc offset]
      dsimp only
      split
      · split <;> rfl
      · split
        · rfl
        · rw [add_eq (by omega)]
          rfl

/-- The body of a compound entry is read as the reader reads it. -/
theorem readCompound_eq (hentry : entry.length < sliceLimit) (hoffset : offset ≤ entry.length) :
    readCompound entry offset = settled
      ((decodeCompound (entry.drop (offset + headerSize))).mapError (Error.shift offset)) := by
  have hlimit := sliceLimit_add_le
  refine readMask_bind hentry hoffset .compoundMaskMissing fun mask hmask => ?_
  rw [add_eq (by omega), pure_bind, read?_eq hentry (by decide), pure_bind]
  dsimp only
  cases hform : Octets.word? 2 (entry.drop (offset + 8)) with
  | none => rfl
  | some read =>
      obtain ⟨form, rest⟩ := read
      obtain ⟨hplace, rfl⟩ := Octets.drop_of_word? (by decide) hform
      rw [Option.map_some, required_some, pure_bind, pure_bind]
      dsimp only
      split
      · rfl
      · rw [add_eq (by omega), pure_bind, List.drop_drop]
        refine readSid_bind hentry rfl fun sid hsid => ?_
        have hsize : (Body.compound (.ofNat mask) sid).size = 12 + sid.size := rfl
        have hrest : entry.drop (offset + 12 + sid.size) = []
            ↔ 12 + sid.size = entry.length - offset := by
          rw [List.drop_eq_nil_iff]
          omega
        dsimp only
        rw [Body.measure_eq (by omega), pure_bind, sub_eq hoffset, pure_bind, hsize]
        simp only [hrest, ne_eq, ite_not]
        split
        · rfl
        · rw [add_eq (by omega)]
          rfl

/-- The body of a custom entry is read as the reader reads it. -/
theorem readCustom_eq (hentry : entry.length < sliceLimit) (hoffset : offset ≤ entry.length)
    {code : UInt8} (hkind : Kind.ofCode? code = none) :
    readCustom code entry offset = settled
      ((decodeBody code (entry.length - offset) (entry.drop (offset + headerSize))).mapError
        (Error.shift offset)) := by
  have hlimit := sliceLimit_add_le
  rw [readCustom, sub_eq hoffset, pure_bind, decodeBody, hkind]
  dsimp only
  split
  · rw [add_eq (by omega)]
    rfl
  · rename_i hlong
    rw [headerSize] at hlong ⊢
    rw [add_eq (by omega), pure_bind, beyond_eq (by omega), pure_bind]
    rfl

/-- The body of an entry is read as the reader reads it. -/
theorem readBody_eq (hentry : entry.length < sliceLimit) (hoffset : offset ≤ entry.length)
    (code : UInt8) :
    readBody code entry offset = settled
      ((decodeBody code (entry.length - offset) (entry.drop (offset + headerSize))).mapError
        (Error.shift offset)) := by
  rw [readBody]
  split
  · rename_i hkind
    exact readCustom_eq hentry hoffset hkind
  · rename_i hkind
    rw [decodeBody, hkind]
    exact readCompound_eq hentry hoffset
  · rename_i qualifier callback hkind
    rw [decodeBody, hkind]
    exact readObject_eq hentry hoffset qualifier callback
  · rename_i qualifier callback hkind
    rw [decodeBody, hkind]
    exact readCommon_eq hentry hoffset qualifier callback

theorem Header.decode?_eq_none_iff {bytes : List UInt8} :
    Header.decode? bytes = none ↔ bytes.length < headerSize := by
  match bytes with
  | [] | [_] => simp [Header.decode?, headerSize]
  | _ :: _ :: rest =>
      simp only [Header.decode?, Option.map_eq_none_iff, Octets.word?_eq_none_iff, List.length_cons,
        headerSize]
      omega

/-- A header that is there is read field by field. -/
theorem Header.exists_fields {bytes header rest : List UInt8}
    (h : Octets.split? headerSize bytes = some (header, rest)) :
    ∃ code flags declared, byte header 0 = pure code ∧ byte header 1 = pure flags ∧
      word 2 header 2 = pure declared ∧
      Header.decode? bytes = some ⟨code, ⟨BitVec.ofNat 8 flags.toNat⟩, declared⟩ := by
  obtain ⟨rfl, hlength⟩ := Octets.split?_eq_some_iff.mp h
  match header, hlength with
  | [code, flags, low, high], _ =>
      exact ⟨code, flags, Octets.littleValue [low, high], rfl, rfl, rfl, rfl⟩

/-- **The program on a slice reads what the reader reads**, and never traps. -/
theorem readAt_eq {bytes : List UInt8} (hbytes : bytes.length < sliceLimit) (offset : Nat) :
    readAt bytes offset = settled (decodeAt bytes offset) := by
  have hlimit := sliceLimit_add_le
  rw [readAt, slice?_eq hbytes (.inr (by decide)), decodeAt, Decoder.startingAt, decode]
  cases hheader : Octets.split? headerSize (bytes.drop offset) with
  | none =>
      rw [Header.decode?_eq_none_iff.mpr (Octets.split?_eq_none_iff.mp hheader)]
      rfl
  | some cut =>
      obtain ⟨header, rest⟩ := cut
      obtain ⟨hplace, -⟩ := Octets.drop_of_split? (by decide) hheader
      obtain ⟨code, flags, declared, hcode, hflags, hword, hread⟩ :=
        Header.exists_fields hheader
      rw [hread, Option.map_some, required_some, pure_bind, hcode, pure_bind, hflags, pure_bind,
        hword, pure_bind, sub_eq (by omega), pure_bind]
      dsimp only
      cases hcut : Octets.split? declared (bytes.drop offset) with
      | none =>
          have hshort := Octets.split?_eq_none_iff.mp hcut
          rw [List.length_drop] at hshort
          rw [if_pos hshort, add_eq (by omega)]
          rfl
      | some cut =>
          obtain ⟨entry, tail⟩ := cut
          obtain ⟨hfits, hlong, hpiece⟩ := Octets.take_of_split? (by omega) hcut
          -- The entry in place: the bytes up to its end.
          have hdrop : (bytes.take (offset + declared)).drop (offset + headerSize)
              = entry.drop headerSize := by
            rw [← List.drop_drop, hpiece]
          rw [if_neg (by omega)]
          dsimp only
          split
          · rw [add_eq (by omega)]
            rfl
          · rw [add_eq (by omega), pure_bind, upTo_eq (by omega), pure_bind,
              readBody_eq (by omega) (by omega), hlong, hdrop, Nat.add_sub_cancel_left]
            cases decodeBody code declared (entry.drop headerSize) <;> rfl

/-! ### The declared size -/

/-- The header of an entry that is read names its code, its flags and the length of its spelling. -/
theorem exists_spelling_of_header {bytes : List UInt8} {header : Header} {entry : Entry}
    (hheader : Header.decode? bytes = some header) (h : decode bytes = .ok entry) :
    ∃ body rest : List UInt8, entry.body.Spelling body ∧ body.length ≤ maxCustomExtra ∧
      header = ⟨entry.code, entry.flags, headerSize + body.length⟩ ∧
      bytes = entry.encodeHeader (headerSize + body.length) ++ (body ++ rest) := by
  obtain ⟨-, body, rest, hspell, hmax, hbytes⟩ := exists_spelling_of_decode h
  have hlt : headerSize + body.length < 65536 := by
    simp only [maxCustomExtra, maxSize, headerSize] at hmax ⊢
    omega
  have hfound : Header.decode? bytes
      = some ⟨entry.code, entry.flags, headerSize + body.length⟩ :=
    Header.decode?_eq_some_iff.mpr ⟨hlt, body ++ rest, hbytes⟩
  rw [hheader] at hfound
  exact ⟨body, rest, hspell, hmax, Option.some.inj hfound, hbytes⟩

/-- What is read as an entry is not greater than it declares. -/
theorem size_le_of_decode {bytes : List UInt8} {header : Header} {entry : Entry}
    (hheader : Header.decode? bytes = some header) (h : decode bytes = .ok entry) :
    entry.size ≤ header.size := by
  obtain ⟨body, rest, hspell, -, rfl, -⟩ := exists_spelling_of_header hheader h
  have hlength := hspell.length
  rw [size]
  dsimp only
  omega

end Entry

end SecurityDescriptor
