/-
**The binary form of identifiers is canonical.**

An identifier has one binary form, and its reader accepts no other: it finds an identifier at an
offset exactly if that form stands there, whatever follows.  The count byte decides where the form
ends, so no form goes on where another one stops.  The two limits of an identifier need no check of
their own behind the reader: six bytes hold no greater authority than the greatest, and a greater
count is refused before the sub-authorities are read.

Main definitions:

* `Sid.StandsAt` — the binary form of an identifier stands at an offset.

Main results:

* `Sid.decodeAt_eq_ok_iff` — **an identifier is read exactly where its binary form stands**, and
  `Sid.run_readAt_eq_ok_iff` for the program that reads by position;
* `Sid.not_isPrefix_encode` — **no binary form begins with that of another identifier**;
* `Sid.decodeAt_parts` — **whatever the bytes of the authority and the sub-authorities, they are the
  parts that are read**;
* `Sid.decodeAt_canonical` — the four together.
-/

import SecurityDescriptor.Proofs.Entry.Damage

set_option relaxedAutoImplicit false
set_option autoImplicit false

namespace SecurityDescriptor

namespace Sid

/-! ### Where an identifier is read -/

/-- The binary form of the identifier stands `offset` bytes into `bytes`. -/
def StandsAt (s : Sid) (bytes : List UInt8) (offset : Nat) : Prop :=
  offset ≤ bytes.length ∧ s.encode <+: bytes.drop offset

theorem encode_ne_nil (s : Sid) : s.encode ≠ [] := by simp [encode]

/-- **An identifier is read exactly where its binary form stands.** -/
theorem decodeAt_eq_ok_iff {bytes : List UInt8} {offset : Nat} {s : Sid} :
    decodeAt bytes offset = .ok s ↔ s.StandsAt bytes offset := by
  rw [decodeAt, Decoder.startingAt_eq_ok_iff, decode_eq_ok_iff, StandsAt]
  constructor
  · rintro ⟨rest, hrest⟩
    -- Nothing follows an offset beyond the end, and a binary form is not nothing.
    have hne : bytes.drop offset ≠ [] := by simp [hrest, encode_ne_nil]
    have hlt : offset < bytes.length := by simpa using hne
    exact ⟨Nat.le_of_lt hlt, rest, hrest.symm⟩
  · rintro ⟨-, rest, hrest⟩
    exact ⟨rest, hrest.symm⟩

/-- The program that reads by position finds an identifier at the same places. -/
theorem run_readAt_eq_ok_iff {bytes : List UInt8} (hbytes : bytes.length < Checked.sliceLimit)
    {offset : Nat} {s : Sid} :
    (readAt bytes offset).run = .ok (.ok s) ↔ s.StandsAt bytes offset := by
  rw [readAt_eq hbytes, ← decodeAt_eq_ok_iff, Checked.run_settled]
  exact ⟨Except.ok.inj, congrArg _⟩

/-! ### One form for each identifier -/

/-- What is read as an identifier begins with its binary form, so that form is the shortest. -/
theorem encode_isPrefix_of_decodeAt {bytes : List UInt8} {s : Sid}
    (h : decodeAt bytes 0 = .ok s) : s.encode <+: bytes := by
  simpa using (decodeAt_eq_ok_iff.mp h).2

/-- A binary form that begins another one is read from it. -/
theorem eq_of_isPrefix {a b : Sid} (h : a.encode <+: b.encode) : a = b := by
  obtain ⟨rest, hrest⟩ := h
  have ha : decode b.encode = .ok a := decode_eq_ok_iff.mpr ⟨rest, hrest.symm⟩
  have hb : decode b.encode = .ok b := decode_eq_ok_iff.mpr ⟨[], (List.append_nil _).symm⟩
  exact Except.ok.inj (ha.symm.trans hb)

/-- **No binary form begins with that of another identifier.** -/
theorem not_isPrefix_encode {a b : Sid} (h : a ≠ b) : ¬a.encode <+: b.encode :=
  fun hstarts => h (eq_of_isPrefix hstarts)

/-! ### The limits -/

/-- Six bytes hold no greater authority than the greatest. -/
theorem bigValue_le_maxAuthority {authority : List UInt8} (h : authority.length = 6) :
    Octets.bigValue authority ≤ maxAuthority := by
  have hlt := Octets.bigValue_lt authority
  rw [h] at hlt
  exact Nat.le_of_lt_succ hlt

/-- **Whatever the bytes of the authority and the sub-authorities, they are the parts that are
read.** -/
theorem decodeAt_parts {authority : List UInt8} {words : List UInt32}
    (hauthority : authority.length = 6) (hwords : words.length ≤ maxCount) (front rest : List UInt8) :
    ∃ s : Sid, s.authority = Octets.bigValue authority ∧ s.subAuthorities = words ∧
      decodeAt (front ++ revision :: .ofNat words.length :: (authority ++ encodeWords words ++ rest))
        front.length = .ok s := by
  refine ⟨⟨Octets.bigValue authority, words, bigValue_le_maxAuthority hauthority, hwords⟩,
    rfl, rfl, ?_⟩
  refine decodeAt_eq_ok_iff.mpr ⟨by simp, rest, ?_⟩
  have hbig : Octets.big 6 (Octets.bigValue authority) = authority := by
    rw [← hauthority, Octets.big_bigValue]
  simp [encode, count, hbig]

/-- The reader never complains about the parts of an identifier: what it refuses is damaged. -/
theorem kind_of_decodeAt {bytes : List UInt8} {offset : Nat} {e : Error}
    (h : decodeAt bytes offset = .error e) : e.kind = .malformedIdentifier := by
  obtain ⟨e', he', rfl⟩ := Outcome.mapError_eq_error_iff.mp h
  rw [Error.kind_shift]
  exact List.mem_singleton.mp (isDamage_of_decode he').kind_mem

/-! ### The binary form is canonical -/

/-- **The binary form is canonical.**  An identifier is read exactly where its binary form stands,
by the reader and by the program; what is read as an identifier is never shorter than that form and,
if it is no longer, is that form; the forms of two identifiers do not begin one another; and any six
bytes of authority with any words that are not too many are read with just these parts, so that the
limits hold and no other complaint is made than that the bytes are damaged. -/
theorem decodeAt_canonical :
    (∀ (bytes : List UInt8) (offset : Nat) (s : Sid),
      decodeAt bytes offset = .ok s ↔ s.StandsAt bytes offset)
    ∧ (∀ (bytes : List UInt8) (offset : Nat) (s : Sid), bytes.length < Checked.sliceLimit →
        ((readAt bytes offset).run = .ok (.ok s) ↔ s.StandsAt bytes offset))
    ∧ (∀ (bytes : List UInt8) (s : Sid), decodeAt bytes 0 = .ok s →
        s.encode.length ≤ bytes.length ∧ (bytes.length = s.encode.length → bytes = s.encode))
    ∧ (∀ a b : Sid, a ≠ b → ¬a.encode <+: b.encode ∧ ¬b.encode <+: a.encode)
    ∧ (∀ (front authority rest : List UInt8) (words : List UInt32), authority.length = 6 →
        words.length ≤ maxCount → ∃ s : Sid,
          s.authority = Octets.bigValue authority ∧ s.subAuthorities = words ∧
          decodeAt
            (front ++ revision :: .ofNat words.length :: (authority ++ encodeWords words ++ rest))
            front.length = .ok s)
    ∧ (∀ (bytes : List UInt8) (offset : Nat),
        (∀ s, decodeAt bytes offset = .ok s → make s.authority s.subAuthorities = .ok s) ∧
        (∀ e, decodeAt bytes offset = .error e → e.kind = .malformedIdentifier)) := by
  refine ⟨fun _ _ _ => decodeAt_eq_ok_iff, fun _ _ _ hbytes => run_readAt_eq_ok_iff hbytes, ?_,
    fun a b hne => ⟨not_isPrefix_encode hne, not_isPrefix_encode hne.symm⟩,
    fun front _ rest _ ha hw => decodeAt_parts ha hw front rest,
    fun _ _ => ⟨fun s _ => make_parts s, fun _ => kind_of_decodeAt⟩⟩
  intro bytes s h
  have hstarts := encode_isPrefix_of_decodeAt h
  exact ⟨hstarts.length_le, fun hlength => (hstarts.eq_of_length hlength.symm).symm⟩

/-- The local system, `S-1-5-18`, between two bytes. -/
theorem decodeAt_canonical_localSystem :
    let bytes : List UInt8 := [7, 1, 1, 0, 0, 0, 0, 0, 5, 18, 0, 0, 0, 9]
    let system : Sid := { authority := 5, subAuthorities := [18] }
    decodeAt bytes 1 = .ok system ∧ (readAt bytes 1).run = .ok (.ok system) ∧
      ¬system.encode <+: (⟨5, [18, 0], by decide, by decide⟩ : Sid).encode ∧
      decodeAt bytes 3 = .error (.identifier .revision 3) ∧
      Error.kind (.identifier .revision 3) = .malformedIdentifier := by
  intro bytes system
  have hstands : system.StandsAt bytes 1 := by
    refine ⟨by decide, [9], ?_⟩
    decide
  obtain ⟨hread, hprogram, -, hstarts, -, hlimits⟩ := decodeAt_canonical
  have hrefused : decodeAt bytes 3 = .error (.identifier .revision 3) := by rfl
  exact ⟨(hread bytes 1 system).mpr hstands, (hprogram bytes 1 system (by decide)).mpr hstands,
    (hstarts system _ (by decide)).1, hrefused, (hlimits bytes 3).2 _ hrefused⟩

end Sid

end SecurityDescriptor
