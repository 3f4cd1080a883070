/-
What the readers report about damaged bytes, and that reading by position never traps.

A list passes on what is wrong with the body of an entry, and says everything else in its own words:
before it reads an entry it has found the header, the declared size and the alignment in order.  A
descriptor follows its slots wherever they point, so a component of it may fail anywhere behind the
start; its own header decides whether it is refused for its form.

Main definitions:

* `AccessList.IsFailure`, `AccessList.StepFailure` — how a list fails, and one step of its loop;
* `Descriptor.IsAbsolute` — the headers that are refused for the form of the descriptor;
* `Disciplined` — what a program on a slice owes to its caller.

Main results:

* `AccessList.isFailure_of_decode` — **a list fails by a fault of its own or by the body of a framed
  entry**, from `AccessList.isFailure_of_decodeEntries` for the loop;
* `AccessList.decodeAt_error` — no fault in the framing of an entry comes out of a list;
* `Descriptor.decode_error` — **a descriptor is refused for its form exactly if its header says so**;
* `readAt_disciplined` — **no bytes make a reader trap or blame the wrong thing**.
-/

import Mathlib.Algebra.Group.Nat.Defs
import SecurityDescriptor.Proofs.Descriptor.Positional
import SecurityDescriptor.Proofs.Entry.Damage

set_option relaxedAutoImplicit false
set_option autoImplicit false

namespace SecurityDescriptor

open Checked

/-! ### Lists -/

namespace AccessList

/-- **How a list fails**: by a fault of its own, or by the body of a framed entry in it.  The list
goes on at `start`, with the given bytes. -/
inductive IsFailure (start : Nat) (bytes : List UInt8) : Error → Prop
  | list (fault : ListFault) (n : Nat) (h : n ≤ bytes.length) :
      IsFailure start bytes (.list fault (start + n))
  | entry {header : Entry.Header} {e : Error} (n : Nat) (h : n ≤ bytes.length)
      (hframed : Entry.Framed (bytes.drop n) header) (he : Entry.decode (bytes.drop n) = .error e) :
      IsFailure start bytes (e.shift (start + n))

/-- A failure behind the first `k` bytes is a failure. -/
theorem IsFailure.of_drop {start k : Nat} {bytes : List UInt8} {e : Error} (hk : k ≤ bytes.length)
    (h : IsFailure (start + k) (bytes.drop k) e) : IsFailure start bytes e := by
  cases h with
  | list fault n h =>
      rw [List.length_drop] at h
      rw [Nat.add_assoc]
      exact .list fault (k + n) (by omega)
  | entry n h hframed he =>
      rw [List.length_drop] at h
      rw [List.drop_drop] at hframed he
      rw [Nat.add_assoc]
      exact .entry (k + n) (by omega) hframed he

/-- How reading one entry and then the others fails: by what stands at the cursor, or behind it. -/
inductive StepFailure (revision : UInt8) (count start total : Nat) (bytes : List UInt8) :
    Error → Prop
  | framing (fault : ListFault) (n : Nat) (hfault : fault ≠ .tooLong) (hn : n ≤ bytes.length) :
      StepFailure revision count start total bytes (.list fault (start + n))
  | body {header : Entry.Header} {e : Error} (hframed : Entry.Framed bytes header)
      (he : Entry.decode bytes = .error e) :
      StepFailure revision count start total bytes (e.shift start)
  | tooLong {header : Entry.Header} {entry : Entry} (hframed : Entry.Framed bytes header)
      (hread : Entry.decode bytes = .ok entry) (htotal : maxSize < total + entry.size) :
      StepFailure revision count start total bytes (.list .tooLong start)
  | behind {header : Entry.Header} {entry : Entry} {e : Error} (hframed : Entry.Framed bytes header)
      (hread : Entry.decode bytes = .ok entry)
      (hothers : decodeEntries revision count (start + stride revision header.size entry.size)
        (total + entry.size) (bytes.drop (stride revision header.size entry.size)) = .error e) :
      StepFailure revision count start total bytes e

theorem stepFailure_of_decodeEntries {revision : UInt8} {count start total : Nat}
    {bytes : List UInt8} {e : Error}
    (h : decodeEntries revision (count + 1) start total bytes = .error e) :
    StepFailure revision count start total bytes e := by
  rw [decodeEntries] at h
  split at h
  · cases h
    exact .framing .entryHeaderBeyondEnd 0 (by decide) (Nat.zero_le _)
  rename_i header hheader
  split at h
  · cases h
    exact .framing .entryBeyondEnd 0 (by decide) (Nat.zero_le _)
  rename_i hcut
  have hfits : header.size ≤ bytes.length := Nat.le_of_not_lt fun hlt =>
    hcut (Octets.split?_eq_none_iff.mpr hlt)
  have hlong : Entry.headerSize ≤ bytes.length := Nat.le_of_not_lt fun hshort => by
    rw [Entry.Header.decode?_eq_none_iff.mpr hshort] at hheader
    cases hheader
  split at h
  · cases h
    exact .framing .entryMisaligned 2 (by decide) (Nat.le_trans (by decide) hlong)
  rename_i haligned
  have hframed : Entry.Framed bytes header := ⟨hheader, hfits, Decidable.of_not_not haligned⟩
  rcases Outcome.bind_eq_error_iff.mp h with h | ⟨entry, hentry, h⟩
  · obtain ⟨e', he', rfl⟩ := Outcome.mapError_eq_error_iff.mp h
    exact .body hframed he'
  have hread := Outcome.mapError_eq_ok_iff.mp hentry
  dsimp only at h
  split at h
  · rename_i htotal
    cases h
    exact .tooLong hframed hread htotal
  rcases Outcome.bind_eq_error_iff.mp h with h | ⟨entries, -, h⟩
  · exact .behind hframed hread h
  · cases h

theorem isFailure_of_decodeEntries {revision : UInt8} {count start total : Nat}
    {bytes : List UInt8} {e : Error}
    (h : decodeEntries revision count start total bytes = .error e) : IsFailure start bytes e := by
  induction count generalizing start total bytes with
  | zero => cases h
  | succ count ih =>
      cases stepFailure_of_decodeEntries h with
      | framing fault n hfault hn => exact .list fault n hn
      | body hframed he => exact .entry 0 (Nat.zero_le _) hframed he
      | tooLong hframed hread htotal => exact .list .tooLong 0 (Nat.zero_le _)
      | behind hframed hread hothers =>
          -- No step leads past the end of the entry as it is declared.
          have hstride := stride_le revision (Entry.size_le_of_decode hframed.read hread)
          exact (ih hothers).of_drop (Nat.le_trans hstride hframed.fits)

/-- A list fails inside the size that it declares, or by its header. -/
theorem isFailure_of_decode {bytes : List UInt8} {e : Error} (h : decode bytes = .error e) :
    ∃ stop, IsFailure 0 (bytes.take stop) e := by
  have hheader : ∀ {fault : ListFault} {n : Nat}, n ≤ bytes.length →
      ∃ stop, IsFailure 0 (bytes.take stop) (.list fault n) := by
    intro fault n hn
    refine ⟨bytes.length, ?_⟩
    rw [List.take_length, ← Nat.zero_add n]
    exact .list fault n hn
  rw [decode] at h
  split at h
  · cases h
    exact hheader (Nat.zero_le _)
  rename_i header hread
  have hlong : headerSize ≤ bytes.length := Nat.le_of_not_lt fun hshort => by
    rw [Header.decode?_eq_none hshort] at hread
    cases hread
  split at h
  · cases h
    exact hheader (Nat.le_trans (by decide) hlong)
  rename_i scope rest hcut
  obtain ⟨hbytes, hlength⟩ := Octets.split?_eq_some_iff.mp hcut
  split at h
  · cases h
    exact hheader (Nat.le_trans (by decide) hlong)
  rename_i hheaded
  rcases Outcome.bind_eq_error_iff.mp h with h | ⟨entries, -, h⟩
  · refine ⟨header.size, ?_⟩
    rw [hbytes, List.take_left' hlength]
    have hfailure := isFailure_of_decodeEntries h
    rw [← Nat.zero_add headerSize] at hfailure
    exact hfailure.of_drop (by omega)
  · cases h

theorem IsFailure.isDamage {start : Nat} {bytes : List UInt8} {e : Error}
    (h : IsFailure start bytes e) :
    e.IsDamage [.malformedList, .malformedEntry, .malformedIdentifier] (start + bytes.length) ∧
      e.isFraming = false := by
  cases h with
  | list fault n h =>
      exact ⟨⟨List.mem_cons_self .., start + n, rfl, Nat.add_le_add_left h start⟩, rfl⟩
  | entry n h hframed he =>
      obtain ⟨hdamage, hunframed⟩ := Entry.isBodyDamage_of_decode hframed he
      have hshifted := hdamage.shift (start + n)
      rw [List.length_drop] at hshifted
      refine ⟨hshifted.mono (List.subset_cons_self ..) (by omega), ?_⟩
      rw [Error.isFraming_shift]
      exact hunframed

theorem isDamage_of_decode {bytes : List UInt8} {e : Error} (h : decode bytes = .error e) :
    e.IsDamage [.malformedList, .malformedEntry, .malformedIdentifier] bytes.length := by
  obtain ⟨stop, hfailure⟩ := isFailure_of_decode h
  refine hfailure.isDamage.1.mono (List.Subset.refl _) ?_
  rw [List.length_take]
  omega

/-- A list never passes on a fault in the framing of an entry: what is not its own fault is what is
wrong with a framed entry in it. -/
theorem decodeAt_error {bytes : List UInt8} {offset : Nat} {e : Error}
    (h : decodeAt bytes offset = .error e) :
    e.isFraming = false ∧ (e.kind = .malformedList ∨ ∃ stop cursor header,
      Entry.Framed ((bytes.take stop).drop cursor) header ∧
        Entry.decodeAt (bytes.take stop) cursor = .error e) := by
  obtain ⟨e', he', rfl⟩ := Outcome.mapError_eq_error_iff.mp h
  obtain ⟨stop, hfailure⟩ := isFailure_of_decode he'
  rw [Error.isFraming_shift]
  refine ⟨hfailure.isDamage.2, ?_⟩
  cases hfailure with
  | list fault n hn => exact .inl rfl
  | @entry header e₀ n hn hframed he =>
      have hview : (bytes.take (offset + stop)).drop (offset + n)
          = ((bytes.drop offset).take stop).drop n := by
        rw [← List.drop_drop, List.drop_take, Nat.add_sub_cancel_left]
      rw [← hview] at hframed he
      refine .inr ⟨offset + stop, offset + n, header, hframed, ?_⟩
      rw [Error.shift_shift, Nat.zero_add, Entry.decodeAt, Decoder.startingAt, he]
      rfl

end AccessList

/-! ### Descriptors -/

theorem Error.isMalformed_shift (n : Nat) (e : Error) : (shift n e).isMalformed = e.isMalformed := by
  rw [isMalformed, kind_shift, isMalformed]

/-- Damage has a place. -/
theorem Error.exists_offset_of_isMalformed {e : Error} (h : e.isMalformed = true) :
    ∃ n, e.offset? = some n := by
  cases e <;> first | exact ⟨_, rfl⟩ | cases h

theorem Error.IsDamage.isMalformed {kinds : List Kind} {limit : Nat} {e : Error}
    (h : e.IsDamage kinds limit) : e.isMalformed = true := by
  obtain ⟨n, hn, -⟩ := h.place
  cases e <;> first | rfl | cases hn

namespace Descriptor

/-- The bytes begin with a whole header of the right revision that does not say that the descriptor
is self-relative: the topmost bit of the control word, in the fourth byte. -/
def IsAbsolute (bytes : List UInt8) : Prop :=
  headerSize ≤ bytes.length ∧ bytes[0]? = some revision ∧
    ∃ high, bytes[3]? = some high ∧ high.toNat < 128

theorem getLsbD_littleValue (low high : UInt8) :
    (BitVec.ofNat 16 (Octets.littleValue [low, high])).getLsbD 15 = decide (128 ≤ high.toNat) := by
  have hlow := low.toNat_lt
  have hhigh := high.toNat_lt
  have hbit : (low.toNat + 256 * (high.toNat + 256 * 0)) / 2 ^ 15 % 2 = 1 ↔ 128 ≤ high.toNat := by
    omega
  rw [BitVec.getLsbD_ofNat, Nat.testBit_eq_decide_div_mod_eq]
  simp only [Octets.littleValue, hbit]
  rfl

/-- What the header of enough bytes says about revision and form. -/
theorem Header.exists_decode? {bytes : List UInt8} (h : headerSize ≤ bytes.length) :
    ∃ header high, Header.decode? bytes = some header ∧ bytes[0]? = some header.revision ∧
      bytes[3]? = some high ∧ header.control.has .selfRelative = decide (128 ≤ high.toNat) := by
  match bytes, h with
  | rev :: rm :: low :: high :: rest, h =>
      rw [headerSize, List.length_cons, List.length_cons, List.length_cons, List.length_cons] at h
      have hword : Octets.word? 2 (low :: high :: rest)
          = some (Octets.littleValue [low, high], rest) := rfl
      obtain ⟨owner, rest₁, howner, h₁⟩ := Octets.exists_word? (show 4 ≤ rest.length by omega)
      obtain ⟨group, rest₂, hgroup, h₂⟩ := Octets.exists_word? (show 4 ≤ rest₁.length by omega)
      obtain ⟨sacl, rest₃, hsacl, h₃⟩ := Octets.exists_word? (show 4 ≤ rest₂.length by omega)
      obtain ⟨dacl, rest₄, hdacl, -⟩ := Octets.exists_word? (show 4 ≤ rest₃.length by omega)
      refine ⟨⟨rev, rm, ⟨BitVec.ofNat 16 (Octets.littleValue [low, high])⟩, owner, group, sacl,
        dacl⟩, high, ?_, rfl, rfl, ?_⟩
      · simp only [Header.decode?, hword, howner, hgroup, hsacl, hdacl, Option.bind_eq_bind,
          Option.bind_some]
        rfl
      · rw [Control.has, ControlFlag.bit, getLsbD_littleValue]

theorem isMalformed_of_decodeSlot {α : Type} {decode : Decoder α} {bytes : List UInt8}
    {inUse : Bool} {slot : Nat} {e : Error}
    (hdecode : ∀ {bytes e}, decode bytes = .error e → e.isMalformed = true)
    (h : decodeSlot decode bytes inUse slot = .error e) : e.isMalformed = true := by
  unfold decodeSlot at h
  split at h
  · rcases Outcome.bind_eq_error_iff.mp h with h | ⟨component, -, h⟩
    · obtain ⟨e', he', rfl⟩ := Outcome.mapError_eq_error_iff.mp h
      rw [Error.isMalformed_shift]
      exact hdecode he'
    · cases h
  · cases h

/-- **A descriptor is refused for its form exactly if its header says so**; all else is damage. -/
theorem decode_error {bytes : List UInt8} {e : Error} (h : decode bytes = .error e) :
    (IsAbsolute bytes ∧ e = .unsupportedForm .absoluteDescriptor "absolute") ∨
      (¬IsAbsolute bytes ∧ e.isMalformed = true) := by
  have hsid : ∀ {bytes e}, Sid.decode bytes = .error e → e.isMalformed = true :=
    fun h => (Sid.isDamage_of_decode h).isMalformed
  have hlist : ∀ {bytes e}, AccessList.decode bytes = .error e → e.isMalformed = true :=
    fun h => (AccessList.isDamage_of_decode h).isMalformed
  by_cases hlong : headerSize ≤ bytes.length
  · obtain ⟨header, high, hheader, hrevision, hhigh, hform⟩ := Header.exists_decode? hlong
    rw [decode, hheader] at h
    dsimp only at h
    split at h
    · rename_i hne
      cases h
      refine .inr ⟨fun habsolute => hne ?_, rfl⟩
      rw [habsolute.2.1] at hrevision
      exact (Option.some.inj hrevision).symm
    rename_i heq
    rw [hform] at h
    split at h
    · rename_i hlow
      cases h
      refine .inl ⟨⟨hlong, ?_, high, hhigh, Nat.lt_of_not_le (of_decide_eq_false hlow)⟩, rfl⟩
      rw [hrevision, Decidable.of_not_not heq]
    · rename_i hlow
      refine .inr ⟨fun habsolute => ?_, ?_⟩
      · obtain ⟨-, -, high', hhigh', hlt⟩ := habsolute
        rw [hhigh] at hhigh'
        cases hhigh'
        exact hlow (decide_eq_false (Nat.not_le_of_lt hlt))
      · rcases Outcome.bind_eq_error_iff.mp h with h | ⟨owner, -, h⟩
        · exact isMalformed_of_decodeSlot hsid h
        rcases Outcome.bind_eq_error_iff.mp h with h | ⟨group, -, h⟩
        · exact isMalformed_of_decodeSlot hsid h
        rcases Outcome.bind_eq_error_iff.mp h with h | ⟨sacl, -, h⟩
        · exact isMalformed_of_decodeSlot hlist h
        rcases Outcome.bind_eq_error_iff.mp h with h | ⟨dacl, -, h⟩
        · exact isMalformed_of_decodeSlot hlist h
        · cases h
  · rw [decode, Header.decode?_eq_none (Nat.lt_of_not_le hlong)] at h
    cases h
    exact .inr ⟨fun habsolute => hlong habsolute.1, rfl⟩

/-- An absolute descriptor is refused. -/
theorem decode_of_isAbsolute {bytes : List UInt8} (h : IsAbsolute bytes) :
    decode bytes = .error (.unsupportedForm .absoluteDescriptor "absolute") := by
  obtain ⟨hlong, hone, high, hhigh, hlt⟩ := h
  obtain ⟨header, high', hheader, hrevision, hhigh', hform⟩ := Header.exists_decode? hlong
  rw [hone] at hrevision
  rw [hhigh] at hhigh'
  cases hhigh'
  rw [decode, hheader]
  dsimp only
  rw [if_neg (fun hne => hne (Option.some.inj hrevision).symm),
    if_pos (by rw [hform, decide_eq_false (Nat.not_le_of_lt hlt)])]

/-- What is not an absolute descriptor is damaged, at the start or behind it. -/
theorem place_of_decodeAt_error {bytes : List UInt8} {offset : Nat} {e : Error}
    (h : decodeAt bytes offset = .error e) (habsolute : ¬IsAbsolute (bytes.drop offset)) :
    e.isMalformed = true ∧ ∃ n, e.offset? = some n ∧ offset ≤ n := by
  obtain ⟨e', he', rfl⟩ := Outcome.mapError_eq_error_iff.mp h
  rcases decode_error he' with ⟨h, -⟩ | ⟨-, hmalformed⟩
  · exact absurd h habsolute
  · obtain ⟨n, hn⟩ := Error.exists_offset_of_isMalformed hmalformed
    rw [Error.isMalformed_shift, Error.offset?_shift, hn]
    exact ⟨hmalformed, offset + n, rfl, Nat.le_add_right ..⟩

end Descriptor

/-! ### Reading hostile bytes -/

/-- **What a program owes to its caller**: it comes to `result` and does not trap, and an error
names a class of damage and a place between the start and the end of the bytes. -/
structure Disciplined {α : Type} (program : Checked α) (result : Except Error α)
    (kinds : List Error.Kind) (bytes : List UInt8) (offset : Nat) : Prop where
  settles : program.run = .ok result
  kind_mem : ∀ e, result = .error e → e.kind ∈ kinds
  place : ∀ e, result = .error e →
    ∃ n, e.offset? = some n ∧ offset ≤ n ∧ (offset ≤ bytes.length → n ≤ bytes.length)

theorem Disciplined.of_isDamage {α : Type} {decode : Decoder α} {program : Checked α}
    {kinds : List Error.Kind} {bytes : List UInt8} {offset : Nat}
    (hprogram : program = settled (decode.startingAt bytes offset))
    (hdamage : ∀ {view e}, decode view = .error e → e.IsDamage kinds view.length) :
    Disciplined program (decode.startingAt bytes offset) kinds bytes offset := by
  have hshifted : ∀ e, decode.startingAt bytes offset = .error e →
      e.IsDamage kinds (offset + (bytes.drop offset).length) ∧
        ∃ e' : Error, e'.shift offset = e := by
    intro e h
    obtain ⟨e', he', rfl⟩ := Outcome.mapError_eq_error_iff.mp h
    exact ⟨(hdamage he').shift offset, e', rfl⟩
  refine ⟨?_, fun e h => (hshifted e h).1.kind_mem, fun e h => ?_⟩
  · rw [hprogram]
    rfl
  · obtain ⟨hdamaged, e', rfl⟩ := hshifted e h
    obtain ⟨n, hn, hle⟩ := hdamaged.place
    have hfrom := Error.offset?_shift offset e'
    rw [hn] at hfrom
    obtain ⟨n', -, rfl⟩ := Option.map_eq_some_iff.mp hfrom.symm
    rw [List.length_drop] at hle
    exact ⟨_, hn, Nat.le_add_right .., fun hoffset => by omega⟩

/-- **No bytes make a reader trap or blame the wrong thing**, wherever it is told to start: none of
the four leaves its slice or the machine words, each reports damage of its own classes and inside the
bytes, a list never passes on a fault in the framing of an entry, and a descriptor is refused for its
form exactly if its header is that of an absolute one. -/
theorem readAt_disciplined {bytes : List UInt8} (hbytes : bytes.length < 2 ^ 63) (offset : Nat) :
    Disciplined (Sid.readAt bytes offset) (Sid.decodeAt bytes offset) [.malformedIdentifier] bytes
        offset ∧
      Disciplined (Entry.readAt bytes offset) (Entry.decodeAt bytes offset)
        [.malformedEntry, .malformedIdentifier] bytes offset ∧
      Disciplined (AccessList.readAt bytes offset) (AccessList.decodeAt bytes offset)
        [.malformedList, .malformedEntry, .malformedIdentifier] bytes offset ∧
      (∀ e, AccessList.decodeAt bytes offset = .error e → e.isFraming = false ∧
        (e.kind = .malformedList ∨ ∃ stop cursor header,
          Entry.Framed ((bytes.take stop).drop cursor) header ∧
            Entry.decodeAt (bytes.take stop) cursor = .error e)) ∧
      (Descriptor.readAt bytes offset).run = .ok (Descriptor.decodeAt bytes offset) ∧
      (Descriptor.IsAbsolute (bytes.drop offset) → Descriptor.decodeAt bytes offset
        = .error (.unsupportedForm .absoluteDescriptor "absolute")) ∧
      ∀ e, Descriptor.decodeAt bytes offset = .error e →
        ¬Descriptor.IsAbsolute (bytes.drop offset) →
          e.isMalformed = true ∧ ∃ n, e.offset? = some n ∧ offset ≤ n := by
  refine ⟨.of_isDamage (Sid.readAt_eq hbytes offset) Sid.isDamage_of_decode,
    .of_isDamage (Entry.readAt_eq hbytes offset) Entry.isDamage_of_decode,
    .of_isDamage (AccessList.readAt_eq hbytes offset) AccessList.isDamage_of_decode,
    fun e h => AccessList.decodeAt_error h, ?_, ?_,
    fun e h habsolute => Descriptor.place_of_decodeAt_error h habsolute⟩
  · rw [Descriptor.readAt_eq hbytes]
    rfl
  · intro h
    rw [Descriptor.decodeAt, Decoder.startingAt, Descriptor.decode_of_isAbsolute h]
    rfl

/-- A list with room for one entry, whose entry declares no bytes at all. -/
def hollowList : List UInt8 := [2, 0, 12, 0, 1, 0, 0, 0, 0, 0, 0, 0]

theorem readAt_disciplined_hollowList :
    hollowList.length < 2 ^ 63 ∧
      (AccessList.readAt hollowList 0).run = .ok (.error (.entry .maskMissing 8)) ∧
      (Sid.readAt hollowList 18446744073709551615).run
        = .ok (.error (.identifier .shortHeader 18446744073709551615)) := by
  have hlength : hollowList.length < 2 ^ 63 := by decide
  have hlist := (readAt_disciplined hlength 0).2.2.1.settles
  have hsid := (readAt_disciplined hlength 18446744073709551615).1.settles
  have hlistResult : AccessList.decodeAt hollowList 0 = .error (.entry .maskMissing 8) := by decide
  have hsidResult : Sid.decodeAt hollowList 18446744073709551615
      = .error (.identifier .shortHeader 18446744073709551615) := by decide
  rw [hlistResult] at hlist
  rw [hsidResult] at hsid
  exact ⟨hlength, hlist, hsid⟩

end SecurityDescriptor
