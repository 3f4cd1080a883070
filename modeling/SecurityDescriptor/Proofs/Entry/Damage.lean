/-
What the readers of identifiers and entries report about damaged bytes.

An error is of use to a caller if it names the right layer and a place in the input.  The readers
report offsets from where they start, and the bound on an offset is the number of bytes they were
given: a part that is missing is noticed where it should begin, which is never behind the end.

An entry can be wrong in its framing, which is its header, its declared size against the bytes there
are, and the alignment of that size; or in its body.  The two are kept apart, because whoever reads
several entries in a row checks the framing first.

Main definitions:

* `Error.IsDamage` — an error of given classes within a given distance;
* `Error.isFraming`, `Error.IsBodyDamage` — the two ways in which an entry can be wrong;
* `Entry.Framed` — bytes that begin with an entry whose framing is right.

Main results:

* `Sid.isDamage_of_decode`, `Entry.isDamage_of_decode` — **what is reported is damage of the right
  class, inside the bytes**;
* `Entry.isBodyDamage_of_decode` — **a framed entry fails by its body only**.
-/

import SecurityDescriptor.Proofs.Entry.Positional

set_option relaxedAutoImplicit false
set_option autoImplicit false

namespace SecurityDescriptor

/-! ### Damage -/

/-- Whether the fault is one of the framing of an entry: its header, its declared size against the
bytes, or the alignment of its size. -/
def EntryFault.isFraming : EntryFault → Bool
  | shortHeader | beyondBuffer | misaligned => true
  | _ => false

namespace Error

/-- Whether the error is one of the framing of an entry. -/
def isFraming : Error → Bool
  | entry fault _ => fault.isFraming
  | _ => false

@[simp] theorem isFraming_shift (n : Nat) (e : Error) : (shift n e).isFraming = e.isFraming := by
  cases e <;> rfl

theorem isFraming_of_kind_ne {e : Error} (h : e.kind ≠ .malformedEntry) : e.isFraming = false := by
  cases e with
  | entry fault offset => exact absurd rfl h
  | _ => rfl

/-- The error is damage of one of the given classes, noticed at most `limit` bytes from where the
reader started. -/
structure IsDamage (kinds : List Kind) (limit : Nat) (e : Error) : Prop where
  kind_mem : e.kind ∈ kinds
  place : ∃ n, e.offset? = some n ∧ n ≤ limit

/-- The error is damage to the body of an entry, the identifier in it included. -/
structure IsBodyDamage (limit : Nat) (e : Error) : Prop where
  damage : e.IsDamage [.malformedEntry, .malformedIdentifier] limit
  unframed : e.isFraming = false

variable {kinds : List Kind} {limit n : Nat} {e : Error}

theorem IsDamage.mono {more : List Kind} {limit' : Nat} (h : e.IsDamage kinds limit)
    (hkinds : kinds ⊆ more) (hlimit : limit ≤ limit') : e.IsDamage more limit' := by
  obtain ⟨place, hplace, hle⟩ := h.place
  exact ⟨hkinds h.kind_mem, place, hplace, Nat.le_trans hle hlimit⟩

theorem IsDamage.shift (h : e.IsDamage kinds limit) (n : Nat) :
    (e.shift n).IsDamage kinds (n + limit) := by
  obtain ⟨place, hplace, hle⟩ := h.place
  refine ⟨?_, n + place, ?_, Nat.add_le_add_left hle n⟩
  · rw [kind_shift]
    exact h.kind_mem
  · rw [offset?_shift, hplace]
    rfl

theorem IsBodyDamage.entry {fault : EntryFault} (hfault : fault.isFraming = false)
    (hn : n ≤ limit) : (Error.entry fault n).IsBodyDamage limit :=
  ⟨⟨List.mem_cons_self .., n, rfl, hn⟩, hfault⟩

theorem IsBodyDamage.mono {limit' : Nat} (h : e.IsBodyDamage limit) (hlimit : limit ≤ limit') :
    e.IsBodyDamage limit' :=
  ⟨h.damage.mono (List.Subset.refl _) hlimit, h.unframed⟩

end Error

/-! ### Identifiers -/

theorem Sid.isDamage_of_decode {bytes : List UInt8} {e : Error} (h : decode bytes = .error e) :
    e.IsDamage [.malformedIdentifier] bytes.length := by
  -- Everything that is reported is an identifier fault at a known place.
  have hfault : ∀ {fault : IdentifierFault} {n : Nat}, n ≤ bytes.length →
      (Error.identifier fault n).IsDamage [.malformedIdentifier] bytes.length :=
    fun hn => ⟨List.mem_cons_self .., _, rfl, hn⟩
  match bytes, h with
  | [], h | [_], h =>
      cases h
      exact hfault (Nat.zero_le _)
  | rev :: count :: body, h =>
      rw [decode] at h
      split at h
      · cases h
        exact hfault (Nat.zero_le _)
      rename_i authority tail hcut
      obtain ⟨rfl, hlength⟩ := Octets.split?_eq_some_iff.mp hcut
      have hlong : 8 ≤ (rev :: count :: (authority ++ tail)).length := by
        simp only [List.length_cons, List.length_append, hlength]
        omega
      split at h
      · cases h
        exact hfault (Nat.zero_le _)
      split at h
      · cases h
        exact hfault (Nat.le_trans (by decide) hlong)
      rename_i hcount
      split at h
      · cases h
        exact hfault hlong
      rename_i words hwords
      -- What is left are parts within the limits, and those are taken.
      have hauthority : Octets.bigValue authority ≤ maxAuthority := by
        have hlt := Octets.bigValue_lt authority
        rw [hlength] at hlt
        exact Nat.le_of_lt_succ hlt
      have hwordsLength : words.length ≤ maxCount := by
        rw [(decodeWords_eq_some_iff.mp hwords).1]
        exact Nat.le_of_not_lt hcount
      rw [make, dif_pos hauthority, dif_pos hwordsLength] at h
      cases h

/-! ### Entries -/

namespace Entry

variable {bytes rest : List UInt8} {e : Error}

theorem length_of_decodeMask {fault : EntryFault} {mask : Mask}
    (h : decodeMask fault bytes = .ok (mask, rest)) : bytes.length = 4 + rest.length := by
  rw [decodeMask_eq_ok_iff.mp h, List.length_append, Octets.length_little]

theorem isBodyDamage_of_decodeMask {fault : EntryFault} (hfault : fault.isFraming = false)
    (h : decodeMask fault bytes = .error e) (limit : Nat) : e.IsBodyDamage limit := by
  unfold decodeMask at h
  split at h
  · cases h
  · cases h
    exact .entry hfault (Nat.zero_le _)

theorem length_of_decodeSid {start : Nat} {sid : Sid} (h : decodeSid start bytes = .ok (sid, rest)) :
    bytes.length = sid.size + rest.length := by
  rw [decodeSid_eq_ok_iff.mp h, List.length_append, Sid.length_encode]

theorem isBodyDamage_of_decodeSid {start : Nat} (h : decodeSid start bytes = .error e) :
    e.IsBodyDamage (start + bytes.length) := by
  rcases Outcome.bind_eq_error_iff.mp h with h | ⟨sid, -, h⟩
  · obtain ⟨e', he', rfl⟩ := Outcome.mapError_eq_error_iff.mp h
    have hdamage := (Sid.isDamage_of_decode he').shift start
    refine ⟨hdamage.mono (List.subset_cons_self ..) (Nat.le_refl _), ?_⟩
    refine Error.isFraming_of_kind_ne fun hkind => ?_
    have hmem := hdamage.kind_mem
    rw [hkind] at hmem
    cases List.mem_singleton.mp hmem
  · cases h

theorem length_of_decodeGuid {stored : Bool} {start : Nat} {guid : Option Guid}
    (h : decodeGuid stored start bytes = .ok (guid, rest)) :
    bytes.length = Guid.size * guid.toList.length + rest.length := by
  rw [(decodeGuid_eq_ok_iff.mp h).2, List.length_append, length_flatMap_encode]

theorem isBodyDamage_of_decodeGuid {stored : Bool} {start : Nat}
    (h : decodeGuid stored start bytes = .error e) : e.IsBodyDamage (start + bytes.length) := by
  unfold decodeGuid at h
  split at h
  · split at h
    · cases h
    · cases h
      exact .entry rfl (Nat.le_add_right ..)
  · cases h

theorem isBodyDamage_of_decodeCommon {qualifier : Qualifier} {callback : Bool}
    (h : decodeCommon qualifier callback bytes = .error e) :
    e.IsBodyDamage (headerSize + bytes.length) := by
  rw [headerSize]
  rcases Outcome.bind_eq_error_iff.mp h with h | ⟨⟨mask, rest⟩, hmask, h⟩
  · exact isBodyDamage_of_decodeMask rfl h _
  have hlength := length_of_decodeMask hmask
  rcases Outcome.bind_eq_error_iff.mp h with h | ⟨⟨sid, extra⟩, hsid, h⟩
  · exact (isBodyDamage_of_decodeSid h).mono (by omega)
  have hextra := length_of_decodeSid hsid
  dsimp only at h
  split at h
  · cases h
    exact .entry rfl (by omega)
  · cases h

theorem isBodyDamage_of_decodeObject {qualifier : Qualifier} {callback : Bool}
    (h : decodeObject qualifier callback bytes = .error e) :
    e.IsBodyDamage (headerSize + bytes.length) := by
  rw [headerSize]
  rcases Outcome.bind_eq_error_iff.mp h with h | ⟨⟨mask, rest⟩, hmask, h⟩
  · exact isBodyDamage_of_decodeMask rfl h _
  have hlength := length_of_decodeMask hmask
  dsimp only at h
  split at h
  · cases h
    exact .entry rfl (Nat.zero_le _)
  rename_i word tail hword
  have htail := congrArg List.length (Octets.word?_eq_some_iff.mp hword).2
  rw [List.length_append, Octets.length_little] at htail
  rcases Outcome.bind_eq_error_iff.mp h with h | ⟨⟨objectType, rest₁⟩, hobject, h⟩
  · exact (isBodyDamage_of_decodeGuid h).mono (by omega)
  have hrest₁ := length_of_decodeGuid hobject
  rcases Outcome.bind_eq_error_iff.mp h with h | ⟨⟨inheritedType, rest₂⟩, hinherited, h⟩
  · exact (isBodyDamage_of_decodeGuid h).mono (by dsimp only; omega)
  have hrest₂ := length_of_decodeGuid hinherited
  dsimp only at hrest₂
  rcases Outcome.bind_eq_error_iff.mp h with h | ⟨⟨sid, extra⟩, hsid, h⟩
  · exact (isBodyDamage_of_decodeSid h).mono (by dsimp only; omega)
  have hextra := length_of_decodeSid hsid
  dsimp only at hextra h
  split at h
  · split at h
    · cases h
      exact .entry rfl (by omega)
    · cases h
  · split at h
    · cases h
    · cases h
      exact .entry rfl (by omega)

/-- The place of the identifier in a compound entry is inside the entry because the declared size is
a multiple of four: two bytes behind the form are not looked at. -/
theorem isBodyDamage_of_decodeCompound (haligned : (headerSize + bytes.length) % 4 = 0)
    (h : decodeCompound bytes = .error e) : e.IsBodyDamage (headerSize + bytes.length) := by
  rw [headerSize] at haligned ⊢
  rcases Outcome.bind_eq_error_iff.mp h with h | ⟨⟨mask, rest⟩, hmask, h⟩
  · exact isBodyDamage_of_decodeMask rfl h _
  have hlength := length_of_decodeMask hmask
  dsimp only at h
  split at h
  · cases h
    exact .entry rfl (Nat.zero_le _)
  rename_i form tail hform
  have htail := congrArg List.length (Octets.word?_eq_some_iff.mp hform).2
  rw [List.length_append, Octets.length_little] at htail
  split at h
  · cases h
    exact .entry rfl (by omega)
  rcases Outcome.bind_eq_error_iff.mp h with h | ⟨⟨sid, surplus⟩, hsid, h⟩
  · refine (isBodyDamage_of_decodeSid h).mono ?_
    rw [List.length_drop]
    omega
  · dsimp only at h
    split at h
    · cases h
    · cases h
      exact .entry rfl (by omega)

/-- **What is wrong with the body of an entry is never its framing**, and lies inside the entry. -/
theorem isBodyDamage_of_decodeBody {code : UInt8} {size : Nat}
    (haligned : (headerSize + bytes.length) % 4 = 0) (h : decodeBody code size bytes = .error e) :
    e.IsBodyDamage (headerSize + bytes.length) := by
  unfold decodeBody at h
  split at h
  · split at h
    · cases h
      exact .entry rfl (Nat.le_trans (by decide) (Nat.le_add_right headerSize _))
    · cases h
  · exact isBodyDamage_of_decodeCompound haligned h
  · exact isBodyDamage_of_decodeObject h
  · exact isBodyDamage_of_decodeCommon h

/-- A header with a declared size that lies within the bytes and is a multiple of four. -/
structure Framed (bytes : List UInt8) (header : Header) : Prop where
  read : Header.decode? bytes = some header
  fits : header.size ≤ bytes.length
  aligned : header.size % 4 = 0

/-- **A framed entry fails by its body only.** -/
theorem isBodyDamage_of_decode {header : Header} (hframed : Framed bytes header)
    (h : decode bytes = .error e) : e.IsBodyDamage bytes.length := by
  have hlong : ¬bytes.length < headerSize := fun hshort => by
    have hread := hframed.read
    rw [Header.decode?_eq_none_iff.mpr hshort] at hread
    cases hread
  have hfits := hframed.fits
  have haligned := hframed.aligned
  rw [decode, hframed.read] at h
  dsimp only at h
  split at h
  · rename_i hcut
    exact absurd (Octets.split?_eq_none_iff.mp hcut) (Nat.not_lt.mpr hfits)
  rename_i entry rest hcut
  obtain ⟨-, hlength⟩ := Octets.split?_eq_some_iff.mp hcut
  rw [if_neg (fun hne => hne haligned)] at h
  rcases Outcome.bind_eq_error_iff.mp h with h | ⟨body, -, h⟩
  · rw [headerSize] at hlong
    refine (isBodyDamage_of_decodeBody ?_ h).mono ?_
    · rw [List.length_drop, headerSize]
      omega
    · rw [List.length_drop, headerSize]
      omega
  · cases h

/-- What is wrong with an entry is noticed inside the bytes. -/
theorem isDamage_of_decode (h : decode bytes = .error e) :
    e.IsDamage [.malformedEntry, .malformedIdentifier] bytes.length := by
  have hfault : ∀ {fault : EntryFault} {n : Nat}, n ≤ bytes.length →
      (Error.entry fault n).IsDamage [.malformedEntry, .malformedIdentifier] bytes.length :=
    fun hn => ⟨List.mem_cons_self .., _, rfl, hn⟩
  cases hheader : Header.decode? bytes with
  | none =>
      rw [decode, hheader] at h
      cases h
      exact hfault (Nat.zero_le _)
  | some header =>
      have hlong : headerSize ≤ bytes.length := Nat.le_of_not_lt fun hshort => by
        rw [Header.decode?_eq_none_iff.mpr hshort] at hheader
        cases hheader
      by_cases hfits : header.size ≤ bytes.length
      · by_cases haligned : header.size % 4 = 0
        · exact (isBodyDamage_of_decode ⟨hheader, hfits, haligned⟩ h).damage
        · rw [decode, hheader] at h
          dsimp only at h
          split at h
          · cases h
            exact hfault (Nat.le_trans (by decide) hlong)
          · rw [if_pos haligned] at h
            cases h
            exact hfault (Nat.le_trans (by decide) hlong)
      · rw [decode, hheader] at h
        dsimp only at h
        rw [Octets.split?_eq_none_iff.mpr (Nat.lt_of_not_le hfits)] at h
        cases h
        exact hfault (Nat.le_trans (by decide) hlong)

end Entry

end SecurityDescriptor
