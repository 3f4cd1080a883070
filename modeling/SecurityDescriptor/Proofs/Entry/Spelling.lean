/-
**The spellings of an entry.**

An entry has one binary form, and the reader of entries takes it with whatever stands behind it.  It
also takes two deviations from it.  The two bytes of a compound entry that have no meaning may hold
anything, and an object entry without a callback may declare 32 bytes more than it has, as long as
so many bytes are there; what they hold does not matter.  This module states both as the binary
form with a window overwritten, and proves that nothing else is taken: every other byte in front of
the reader is the byte that writing the entry again gives.

Main definitions:

* `Entry.encodeHeader`, `Entry.encodeDeclaring` — an entry that declares a given size, be it the
  true one or not;
* `Body.isCompound`, `Body.isPlainObject` — the bodies with a tolerated deviation;
* `Entry.Spelling` — **the bytes that the reader takes for an entry**;
* `Entry.IsForgotten`, `Entry.ReadFrom` — the bytes that reading does not look at, and what reading
  an entry has made sure of.

Main results:

* `Entry.spelling_iff` — a spelling is a header and a spelling of the body;
* `Entry.decode_eq_ok_iff_spelling` — **an entry is read exactly from its spellings**;
* `Entry.ReadFrom.of_spelling` — **reading loses nothing** but the bytes that have no meaning;
* `Entry.decodeAt_eq_ok_iff_spelling` — both for every entry that can be had and at every offset.
-/

import SecurityDescriptor.Descriptor.Basic
import SecurityDescriptor.Proofs.Entry.Reachable

set_option relaxedAutoImplicit false
set_option autoImplicit false

namespace SecurityDescriptor

/-! ### Bodies with a tolerated deviation -/

namespace Body

/-- Whether this is the body of a compound entry. -/
def isCompound : Body → Bool
  | compound _ _ => true
  | _ => false

/-- Whether this is the body of an object entry without a callback. -/
def isPlainObject : Body → Bool
  | object rule _ => !rule.callback
  | _ => false

/-- **A spelling of a body has its true length**, or 32 bytes more behind an object body without a
callback. -/
theorem Spelling.length {body : Body} {bytes : List UInt8} (h : body.Spelling bytes) :
    Entry.headerSize + bytes.length = body.size ∨
      body.isPlainObject = true ∧ Entry.headerSize + bytes.length = body.size + 32 := by
  cases h with
  | exact => exact .inl (headerSize_add_length_encodeBody body)
  | padded mask sid padding h =>
      refine .inl ?_
      simp only [List.length_append, Octets.length_little, Sid.length_encode, h, Entry.headerSize,
        size]
      omega
  | surplus rule target surplus hcallback h =>
      have hsize := headerSize_add_length_encodeBody (object rule target)
      refine .inr ⟨?_, ?_⟩
      · rw [isPlainObject, hcallback]
        rfl
      · rw [List.length_append, h, ← hsize, Nat.add_assoc]
        rfl

/-- An object body without a callback has no extra bytes. -/
theorem WellFormed.extra_of_isPlainObject {body : Body} (h : body.WellFormed)
    (hplain : body.isPlainObject = true) : body.extra = [] := by
  cases body with
  | object rule target =>
      have hlimit : Entry.objectExtraLimit rule.callback = 0 := by
        rw [Entry.objectExtraLimit, if_neg]
        simpa [isPlainObject] using hplain
      have hb := h.bounded
      rw [extraLimit, hlimit] at hb
      exact List.length_eq_zero_iff.mp (Nat.le_zero.mp hb)
  | _ => cases hplain

/-- Without extra bytes an object body is a small one. -/
theorem WellFormed.size_le_of_isPlainObject {body : Body} (h : body.WellFormed)
    (hplain : body.isPlainObject = true) : body.size ≤ 112 := by
  have hextra := h.extra_of_isPlainObject hplain
  cases body with
  | object rule target =>
      have hs := rule.sid.size_le
      have hg := length_guids_le target
      simp only [extra] at hextra
      simp only [Sid.maxSize, Sid.minSize, Sid.maxCount] at hs
      simp only [size, Guid.size, hextra, List.length_nil]
      omega
  | _ => cases hplain

/-- No spelling of a well-formed body is too long for an entry. -/
theorem WellFormed.length_spelling_le {body : Body} (h : body.WellFormed) {bytes : List UInt8}
    (hspell : body.Spelling bytes) : bytes.length ≤ Entry.maxCustomExtra := by
  have hle := h.size_le
  simp only [Entry.maxSize] at hle
  simp only [Entry.maxCustomExtra, Entry.maxSize]
  rcases hspell.length with hlength | ⟨hplain, hlength⟩
  · omega
  · have hsmall := h.size_le_of_isPlainObject hplain
    rw [Entry.headerSize] at hlength ⊢
    omega

end Body

namespace Entry

/-! ### Entries that declare a size -/

/-- The header of an entry that declares the given size. -/
def encodeHeader (entry : Entry) (declared : Nat) : List UInt8 :=
  entry.code :: UInt8.ofNat entry.flags.bits.toNat :: Octets.little 2 declared

/-- The bytes of an entry that declares the given size, be it the true one or not. -/
def encodeDeclaring (entry : Entry) (declared : Nat) : List UInt8 :=
  entry.encodeHeader declared ++ encodeBody entry.body

@[simp] theorem length_encodeHeader (entry : Entry) (declared : Nat) :
    (entry.encodeHeader declared).length = headerSize := by
  simp only [encodeHeader, List.length_cons, Octets.length_little, headerSize]

/-- The writer declares the true size. -/
theorem encode_eq_encodeDeclaring (entry : Entry) :
    entry.encode = entry.encodeDeclaring entry.size := rfl

theorem length_encodeDeclaring (entry : Entry) (declared : Nat) :
    (entry.encodeDeclaring declared).length = entry.size := by
  rw [encodeDeclaring, List.length_append, length_encodeHeader,
    Body.headerSize_add_length_encodeBody, size]

/-- The size field stands behind the code and the flags. -/
theorem overwrite_encode (entry : Entry) (declared : Nat) :
    Octets.overwrite entry.encode 2 (Octets.little 2 declared)
      = entry.encodeDeclaring declared := by
  have hparts : entry.encode
      = [entry.code, UInt8.ofNat entry.flags.bits.toNat] ++
          (Octets.little 2 entry.size ++ encodeBody entry.body) := rfl
  have hfront : [entry.code, UInt8.ofNat entry.flags.bits.toNat].length = 2 := rfl
  rw [hparts, Octets.overwrite_append hfront (by rw [Octets.length_little, Octets.length_little])]
  rfl

/-- The bytes of a compound entry that have no meaning stand behind the number of its form. -/
theorem overwrite_encode_compound (flags : Flags) (mask : Mask) (sid : Sid) {padding : List UInt8}
    (h : padding.length = 2) :
    Octets.overwrite (encode ⟨flags, .compound mask sid⟩) 10 padding
      = encodeHeader ⟨flags, .compound mask sid⟩ (12 + sid.size) ++
          (Octets.little 4 mask.toNat ++ (Octets.little 2 compoundForm ++
            (padding ++ sid.encode))) := by
  have hparts : encode ⟨flags, .compound mask sid⟩
      = (encodeHeader ⟨flags, .compound mask sid⟩ (12 + sid.size) ++
          (Octets.little 4 mask.toNat ++ Octets.little 2 compoundForm)) ++
            (Octets.little 2 0 ++ sid.encode) := by
    rw [encode_eq_encodeDeclaring, encodeDeclaring, encodeBody]
    simp only [List.append_assoc]
    rfl
  have hfront : (encodeHeader ⟨flags, .compound mask sid⟩ (12 + sid.size) ++
      (Octets.little 4 mask.toNat ++ Octets.little 2 compoundForm)).length = 10 := by
    simp only [List.length_append, length_encodeHeader, Octets.length_little, headerSize]
  rw [hparts, Octets.overwrite_append hfront (by rw [Octets.length_little, h])]
  simp only [List.append_assoc]

/-! ### Spellings -/

/-- **The bytes that the reader takes for an entry.** -/
inductive Spelling (entry : Entry) : List UInt8 → Prop
  /-- The binary form. -/
  | exact : Spelling entry entry.encode
  /-- A compound entry with anything in the two bytes that have no meaning. -/
  | padded (hcompound : entry.body.isCompound = true) (padding : List UInt8)
      (hlength : padding.length = 2) : Spelling entry (Octets.overwrite entry.encode 10 padding)
  /-- An object entry without a callback that declares 32 bytes too many, with any such bytes. -/
  | surplus (hplain : entry.body.isPlainObject = true) (surplus : List UInt8)
      (hlength : surplus.length = 32) :
      Spelling entry
        (Octets.overwrite entry.encode 2 (Octets.little 2 (entry.size + 32)) ++ surplus)

/-- **A spelling is a header and a spelling of the body** of the length that the header declares. -/
theorem spelling_iff {entry : Entry} {bytes : List UInt8} :
    entry.Spelling bytes ↔ ∃ body, entry.body.Spelling body ∧
      bytes = entry.encodeHeader (headerSize + body.length) ++ body := by
  constructor
  · intro h
    cases h with
    | exact =>
        refine ⟨encodeBody entry.body, .exact entry.body, ?_⟩
        rw [Body.headerSize_add_length_encodeBody]
        rfl
    | padded hcompound padding hlength =>
        obtain ⟨flags, _ | _ | ⟨mask, sid⟩ | _⟩ := entry
        case compound =>
          refine ⟨_, .padded mask sid padding hlength, ?_⟩
          rw [overwrite_encode_compound flags mask sid hlength]
          simp only [List.length_append, Octets.length_little, Sid.length_encode, hlength,
            headerSize]
          congr 2
          omega
        all_goals cases hcompound
    | surplus hplain surplus hlength =>
        obtain ⟨flags, _ | ⟨rule, target⟩ | _ | _⟩ := entry
        case object =>
          have hcallback : rule.callback = false := by simpa [Body.isPlainObject] using hplain
          refine ⟨_, .surplus rule target surplus hcallback hlength, ?_⟩
          rw [overwrite_encode, encodeDeclaring, List.length_append, ← Nat.add_assoc,
            Body.headerSize_add_length_encodeBody, hlength, List.append_assoc]
          rfl
        all_goals cases hplain
  · rintro ⟨body, hbody, rfl⟩
    obtain ⟨flags, content⟩ := entry
    cases hbody with
    | exact =>
        rw [Body.headerSize_add_length_encodeBody]
        exact .exact
    | padded mask sid padding hlength =>
        have hspell := @Spelling.padded ⟨flags, .compound mask sid⟩ rfl padding hlength
        rw [overwrite_encode_compound flags mask sid hlength] at hspell
        have hsize : headerSize + (Octets.little 4 mask.toNat ++ (Octets.little 2 compoundForm ++
            (padding ++ sid.encode))).length = 12 + sid.size := by
          simp only [List.length_append, Octets.length_little, Sid.length_encode, hlength,
            headerSize]
          omega
        rw [hsize]
        exact hspell
    | surplus rule target surplus hcallback hlength =>
        have hplain : Body.isPlainObject (.object rule target) = true := by
          rw [Body.isPlainObject, hcallback]
          rfl
        have hspell := @Spelling.surplus ⟨flags, .object rule target⟩ hplain surplus hlength
        rw [overwrite_encode, encodeDeclaring, List.append_assoc] at hspell
        rw [List.length_append, ← Nat.add_assoc, Body.headerSize_add_length_encodeBody, hlength]
        exact hspell

/-- **An entry is read exactly from its spellings**, whatever follows. -/
theorem decode_eq_ok_iff_spelling {entry : Entry} (h : entry.body.WellFormed)
    {bytes : List UInt8} :
    decode bytes = .ok entry
      ↔ ∃ spelling rest : List UInt8, entry.Spelling spelling ∧ bytes = spelling ++ rest := by
  rw [decode_eq_ok_iff]
  constructor
  · rintro ⟨-, body, rest, hspell, -, rfl⟩
    refine ⟨entry.encodeHeader (headerSize + body.length) ++ body, rest,
      spelling_iff.2 ⟨body, hspell, rfl⟩, ?_⟩
    simp only [encodeHeader, List.cons_append, List.append_assoc]
  · rintro ⟨spelling, rest, hspelling, rfl⟩
    obtain ⟨body, hspell, rfl⟩ := spelling_iff.1 hspelling
    refine ⟨h, body, rest, hspell, h.length_spelling_le hspell, ?_⟩
    simp only [encodeHeader, List.cons_append, List.append_assoc]

/-! ### What reading makes sure of -/

/-- The positions in an entry that reading forgets: the two bytes of a compound entry that have no
meaning, and the size field of an object entry without a callback. -/
def IsForgotten (entry : Entry) (i : Nat) : Prop :=
  entry.body.isCompound = true ∧ (i = 10 ∨ i = 11) ∨
    entry.body.isPlainObject = true ∧ (i = 2 ∨ i = 3)

/-- **What reading an entry from the front of `bytes` has made sure of.** -/
structure ReadFrom (entry : Entry) (bytes : List UInt8) : Prop where
  /-- The declared size is the true one, or 32 bytes more for an object entry without a callback.
  It is a multiple of four, and so many bytes are there. -/
  declared : ∃ declared, Header.decode? bytes = some ⟨entry.code, entry.flags, declared⟩ ∧
    (declared = entry.size ∨ entry.body.isPlainObject = true ∧ declared = entry.size + 32) ∧
    declared % 4 = 0 ∧ declared ≤ bytes.length
  /-- Writing the entry again gives the bytes that were read, but for the forgotten ones. -/
  kept : ∀ i < entry.size, ¬entry.IsForgotten i → bytes[i]? = entry.encode[i]?

/-- Outside the forgotten positions a spelling is the binary form. -/
theorem Spelling.getElem?_eq {entry : Entry} {spelling : List UInt8}
    (h : entry.Spelling spelling) {i : Nat} (hi : i < entry.size) (hkept : ¬entry.IsForgotten i) :
    spelling[i]? = entry.encode[i]? := by
  have hlength := entry.length_encode
  have hheader := entry.headerSize_le_size
  rw [headerSize] at hheader
  cases h with
  | exact => rfl
  | padded hcompound padding hpadding =>
      have hsize : 12 ≤ entry.size := by
        obtain ⟨flags, _ | _ | ⟨mask, sid⟩ | _⟩ := entry
        case compound => exact Nat.le_add_right 12 sid.size
        all_goals cases hcompound
      have houtside : i < 10 ∨ 12 ≤ i := by
        by_contra hwindow
        exact hkept (.inl ⟨hcompound, by omega⟩)
      exact Octets.getElem?_overwrite (by omega) (by omega)
  | surplus hplain surplus hsurplus =>
      have houtside : i < 2 ∨ 4 ≤ i := by
        by_contra hwindow
        exact hkept (.inr ⟨hplain, by omega⟩)
      have hwindow : 2 + (Octets.little 2 (entry.size + 32)).length ≤ entry.encode.length := by
        rw [Octets.length_little]
        omega
      rw [List.getElem?_append_left (by rw [Octets.length_overwrite hwindow]; omega)]
      exact Octets.getElem?_overwrite hwindow (by rw [Octets.length_little]; omega)

/-- **Reading loses nothing** but the bytes that have no meaning. -/
theorem ReadFrom.of_spelling {entry : Entry} (h : entry.body.WellFormed) {spelling : List UInt8}
    (hspelling : entry.Spelling spelling) (rest : List UInt8) :
    entry.ReadFrom (spelling ++ rest) := by
  obtain ⟨body, hspell, hbytes⟩ := spelling_iff.1 hspelling
  have hlength : spelling.length = headerSize + body.length := by
    rw [hbytes, List.length_append, length_encodeHeader]
  have hmax := h.length_spelling_le hspell
  have hmod := length_spelling_mod hspell
  have haligned := h.aligned
  simp only [maxCustomExtra, maxSize, headerSize] at hmax
  have hsize : headerSize + body.length = entry.size ∨
      entry.body.isPlainObject = true ∧ headerSize + body.length = entry.size + 32 := hspell.length
  have hlt : headerSize + body.length < 65536 := by
    rw [headerSize]
    omega
  refine ⟨⟨headerSize + body.length, ?_, hsize, by omega, ?_⟩, ?_⟩
  · refine Header.decode?_eq_some_iff.2 ⟨hlt, body ++ rest, ?_⟩
    rw [hbytes, encodeHeader]
    simp only [List.cons_append, List.append_assoc]
  · rw [List.length_append, hlength]
    exact Nat.le_add_right _ _
  · intro i hi hkept
    have hinside : i < spelling.length := by
      rw [hlength]
      rcases hsize with hsize | ⟨-, hsize⟩ <;> omega
    rw [List.getElem?_append_left hinside, hspelling.getElem?_eq hi hkept]

/-- **An entry is read at an offset exactly if one of its spellings starts there**, and then all but
the forgotten bytes are those that writing the entry again gives. -/
theorem decodeAt_eq_ok_iff_spelling :
    (∀ entry : Entry, entry.Reachable → ∀ (bytes : List UInt8) (offset : Nat),
      decodeAt bytes offset = .ok entry
        ↔ ∃ spelling rest : List UInt8,
            entry.Spelling spelling ∧ bytes.drop offset = spelling ++ rest) ∧
    ∀ (bytes : List UInt8) (offset : Nat) (entry : Entry), decodeAt bytes offset = .ok entry →
      entry.ReadFrom (bytes.drop offset) := by
  refine ⟨?_, ?_⟩
  · intro entry hentry bytes offset
    rw [decodeAt, Decoder.startingAt_eq_ok_iff]
    exact decode_eq_ok_iff_spelling hentry.wellFormed
  · intro bytes offset entry hread
    have hwf := (Reachable.decoded hread).wellFormed
    rw [decodeAt, Decoder.startingAt_eq_ok_iff] at hread
    obtain ⟨spelling, rest, hspelling, hbytes⟩ := (decode_eq_ok_iff_spelling hwf).1 hread
    rw [hbytes]
    exact .of_spelling hwf hspelling rest

/-- A compound entry for everyone. -/
def everyoneCompound : Entry := ofCompound .none 1 Descriptor.everyone

/-- An object entry for everyone, without a callback and without object types. -/
def everyoneObject : Entry :=
  ⟨.none, .object ⟨.allow, false, 1, Descriptor.everyone, []⟩ ⟨none, none, 0⟩⟩

/-- Both deviations are read, and what reading forgets of them is where it should be. -/
theorem decodeAt_eq_ok_iff_spelling_deviating :
    decodeAt ([7] ++ Octets.overwrite everyoneCompound.encode 10 [8, 9] ++ [5]) 1
        = .ok everyoneCompound ∧
      decodeAt (Octets.overwrite everyoneObject.encode 2 (Octets.little 2 56) ++
        List.replicate 32 6) 0 = .ok everyoneObject ∧
      everyoneObject.ReadFrom (Octets.overwrite everyoneObject.encode 2 (Octets.little 2 56) ++
        List.replicate 32 6) := by
  have hcompound : everyoneCompound.Reachable := .compound _ _ _
  have hmade : ofObject .none ⟨.allow, false, 1, Descriptor.everyone, []⟩
      none none = .ok everyoneObject := rfl
  have hpadded : everyoneCompound.Spelling (Octets.overwrite everyoneCompound.encode 10 [8, 9]) :=
    .padded rfl [8, 9] rfl
  have hsurplus : everyoneObject.Spelling (Octets.overwrite everyoneObject.encode 2
      (Octets.little 2 56) ++ List.replicate 32 6) := .surplus rfl (List.replicate 32 6) rfl
  have hread := (decodeAt_eq_ok_iff_spelling.1 everyoneObject (.object hmade)
    (Octets.overwrite everyoneObject.encode 2 (Octets.little 2 56) ++ List.replicate 32 6) 0).2
    ⟨_, [], hsurplus, (List.append_nil _).symm⟩
  refine ⟨?_, hread, decodeAt_eq_ok_iff_spelling.2 _ 0 _ hread⟩
  exact (decodeAt_eq_ok_iff_spelling.1 everyoneCompound hcompound _ 1).2 ⟨_, [5], hpadded, rfl⟩

end Entry

end SecurityDescriptor
