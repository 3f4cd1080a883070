/-
**What the reader of entries accepts.**

The reader of an entry looks at a header and at the body that the header declares.  It accepts the
bytes that the writer produces and two deviations: a compound entry may carry anything in the two
bytes without a meaning, and an object entry without a callback may declare 32 bytes too many.
`Body.Spelling` lists these three ways of writing a body down, and the main result says that the
reader accepts a byte string if and only if it is a header followed by such a spelling of a
well-formed body.  Reading back what was written, and keeping the invariants of a body when it is
read, are its two directions.

Main definitions:

* `Target.IsProper`, `Body.IsProper`, `Body.extraLimit` — what a body promises about its parts;
* `Body.WellFormed` — **the invariant of a body**;
* `Body.Spelling` — the bytes that the reader takes for a body.

Main results:

* `Target.reservedOf_word`, `Target.word_reservedOf` — the flag word and the target determine each
  other;
* `Body.WellFormed.size_le` — a well-formed body fits in the size field;
* `Entry.decodeBody_eq_ok_iff` — the reader of bodies accepts exactly their spellings;
* `Entry.exists_spelling_of_decode`, `Entry.decode_of_spelling` — what was read, and what is read;
* `Entry.decode_eq_ok_iff` — **the reader of entries accepts exactly a header and a spelling**;
* `Entry.Header.decode?_encode_append`, `Entry.decode_encode_append` — what was written is read back.
-/

import SecurityDescriptor.Entry.Binary
import SecurityDescriptor.Proofs.Canonical
import SecurityDescriptor.Proofs.Outcome

set_option relaxedAutoImplicit false
set_option autoImplicit false

namespace SecurityDescriptor

/-! ### The flag word of a target -/

namespace Target

/-- The bits without a meaning leave out the two that have one. -/
def IsProper (target : Target) : Prop :=
  target.reserved.getLsbD objectTypeBit = false ∧ target.reserved.getLsbD inheritedTypeBit = false

/-- What the reader keeps of a flag word as the bits without a meaning. -/
def reservedOf (word : BitVec 32) : BitVec 32 :=
  Bits.put (Bits.put word objectTypeBit false) inheritedTypeBit false

theorem getLsbD_reservedOf (word : BitVec 32) (i : Nat) :
    (reservedOf word).getLsbD i
      = if inheritedTypeBit = i then false else if objectTypeBit = i then false
        else word.getLsbD i := by
  rw [reservedOf, Bits.getLsbD_put _ (by decide), Bits.getLsbD_put _ (by decide)]

theorem getLsbD_word (target : Target) (i : Nat) :
    target.word.getLsbD i
      = if inheritedTypeBit = i then target.inheritedType.isSome
        else if objectTypeBit = i then target.objectType.isSome else target.reserved.getLsbD i := by
  rw [word, Bits.getLsbD_put _ (by decide), Bits.getLsbD_put _ (by decide)]

/-- The bits without a meaning are read back from the flag word. -/
theorem reservedOf_word {target : Target} (h : target.IsProper) :
    reservedOf target.word = target.reserved := by
  apply BitVec.eq_of_getLsbD_eq
  intro i _
  rw [getLsbD_reservedOf, getLsbD_word]
  split
  · rename_i hi
    rw [← hi, h.2]
  · split
    · rename_i hi
      rw [← hi, h.1]
    · rfl

/-- A flag word is that of the target which it announces. -/
theorem word_reservedOf {word : BitVec 32} {objectType inheritedType : Option Guid}
    (ho : objectType.isSome = word.getLsbD objectTypeBit)
    (hi : inheritedType.isSome = word.getLsbD inheritedTypeBit) :
    Target.word ⟨objectType, inheritedType, reservedOf word⟩ = word := by
  apply BitVec.eq_of_getLsbD_eq
  intro i _
  rw [getLsbD_word, getLsbD_reservedOf]
  split
  · rename_i h
    rw [← h, hi]
  · split
    · rename_i h
      rw [← h, ho]
    · rfl

theorem isProper_reservedOf (objectType inheritedType : Option Guid) (word : BitVec 32) :
    IsProper ⟨objectType, inheritedType, reservedOf word⟩ := by
  constructor
  · rw [getLsbD_reservedOf]
    simp [objectTypeBit, inheritedTypeBit]
  · rw [getLsbD_reservedOf]
    simp

end Target

/-! ### The invariant of a body -/

namespace Body

/-- The greatest number of extra bytes that a body may carry. -/
def extraLimit : Body → Nat
  | common _ => Entry.maxCommonExtra
  | object rule _ => Entry.objectExtraLimit rule.callback
  | compound _ _ => 0
  | custom _ _ => Entry.maxCustomExtra

/-- What a body promises about its parts, the extra bytes apart. -/
def IsProper : Body → Prop
  | object _ target => target.IsProper
  | custom code _ => Kind.lastCode < code
  | _ => True

/-- **The invariant of a body.** -/
structure WellFormed (body : Body) : Prop where
  /-- The number of extra bytes is a multiple of four. -/
  aligned : body.extra.length % 4 = 0
  /-- The extra bytes leave room for everything else. -/
  bounded : body.extra.length ≤ body.extraLimit
  proper : body.IsProper

theorem length_guids_le (target : Target) : target.guids.length ≤ 2 := by
  rcases target with ⟨_ | o, _ | i, r⟩ <;> simp [Target.guids]

/-- **A well-formed body fits in the size field.** -/
theorem WellFormed.size_le {body : Body} (h : body.WellFormed) : body.size ≤ Entry.maxSize := by
  have hb := h.bounded
  cases body with
  | common rule =>
      have hs := rule.sid.size_le
      simp only [extra, extraLimit, Entry.maxCommonExtra, Entry.maxSize, Entry.headerSize,
        Sid.maxSize, Sid.minSize, Sid.maxCount] at hb
      simp only [Sid.maxSize, Sid.minSize, Sid.maxCount] at hs
      simp only [size, Entry.maxSize]
      omega
  | object rule target =>
      have hs := rule.sid.size_le
      have hg := length_guids_le target
      have hlimit : Entry.objectExtraLimit rule.callback ≤ Entry.maxObjectExtra := by
        unfold Entry.objectExtraLimit
        split <;> omega
      simp only [Entry.maxObjectExtra, Entry.maxSize, Entry.headerSize, Sid.maxSize, Sid.minSize,
        Sid.maxCount, Guid.size] at hlimit
      simp only [extra, extraLimit] at hb
      simp only [Sid.maxSize, Sid.minSize, Sid.maxCount] at hs
      simp only [size, Entry.maxSize, Guid.size]
      omega
  | compound mask sid =>
      have hs := sid.size_le
      simp only [Sid.maxSize, Sid.minSize, Sid.maxCount] at hs
      simp only [size, Entry.maxSize]
      omega
  | custom code extra =>
      simp only [Body.extra, extraLimit, Entry.maxCustomExtra, Entry.maxSize,
        Entry.headerSize] at hb
      simp only [size, Entry.maxSize]
      omega

theorem size_mod (body : Body) : body.size % 4 = body.extra.length % 4 := by
  cases body <;> simp only [size, extra, Sid.size, Sid.minSize, Guid.size, List.length_nil] <;>
    omega

/-- The number of bytes behind the header, as the size of an entry counts them. -/
theorem headerSize_add_length_encodeBody (body : Body) :
    Entry.headerSize + (Entry.encodeBody body).length = body.size := by
  have h := Entry.length_encode ⟨Flags.none, body⟩
  simp only [Entry.encode, Entry.size, List.length_cons, List.length_append,
    Octets.length_little] at h
  rw [Entry.headerSize]
  omega

/-- **The bytes that the reader takes for a body.** -/
inductive Spelling : Body → List UInt8 → Prop
  /-- What the writer produces. -/
  | exact (body : Body) : Spelling body (Entry.encodeBody body)
  /-- Anything in the two bytes of a compound body that have no meaning. -/
  | padded (mask : Mask) (sid : Sid) (padding : List UInt8) (h : padding.length = 2) :
      Spelling (.compound mask sid)
        (Octets.little 4 mask.toNat ++ (Octets.little 2 Entry.compoundForm ++
          (padding ++ sid.encode)))
  /-- The surplus behind an object body without a callback. -/
  | surplus (rule : Rule) (target : Target) (surplus : List UInt8)
      (hcallback : rule.callback = false) (h : surplus.length = Entry.toleratedSurplus) :
      Spelling (.object rule target) (Entry.encodeBody (.object rule target) ++ surplus)

end Body

/-! ### The parts of a body -/

namespace Entry

theorem decodeMask_eq_ok_iff {fault : EntryFault} {bytes rest : List UInt8} {mask : Mask} :
    decodeMask fault bytes = .ok (mask, rest) ↔ bytes = Octets.little 4 mask.toNat ++ rest := by
  unfold decodeMask
  constructor
  · intro h
    split at h
    · rename_i word tail hword
      obtain ⟨hlt, rfl⟩ := Octets.word?_eq_some_iff.1 hword
      cases h
      have hval : (UInt32.ofNat word).toNat = word := UInt32.toNat_ofNat_of_lt' hlt
      rw [hval]
    · cases h
  · rintro rfl
    have hlt : mask.toNat < Nat.pow 256 4 := mask.toNat_lt
    rw [Octets.word?_little_append, Nat.mod_eq_of_lt hlt]
    simp only [UInt32.ofNat_toNat]

theorem decodeSid_eq_ok_iff {start : Nat} {bytes rest : List UInt8} {sid : Sid} :
    decodeSid start bytes = .ok (sid, rest) ↔ bytes = sid.encode ++ rest := by
  unfold decodeSid
  constructor
  · intro h
    obtain ⟨s, hs, h⟩ := Outcome.bind_eq_ok_iff.1 h
    obtain ⟨tail, rfl⟩ := Sid.decode_eq_ok_iff.1 (Outcome.mapError_eq_ok_iff.1 hs)
    cases h
    rw [← Sid.length_encode, List.drop_left]
  · rintro rfl
    rw [Sid.decode_encode_append]
    simp only [Outcome.mapError_ok, Outcome.ok_bind, ← Sid.length_encode, List.drop_left]
    rfl

theorem decodeGuid_eq_ok_iff {stored : Bool} {start : Nat} {bytes rest : List UInt8}
    {guid : Option Guid} :
    decodeGuid stored start bytes = .ok (guid, rest)
      ↔ guid.isSome = stored ∧ bytes = guid.toList.flatMap Guid.encode ++ rest := by
  unfold decodeGuid
  cases stored with
  | false => cases guid <;> simp [eq_comm]
  | true =>
      cases hread : Guid.decode? bytes with
      | none =>
          cases guid with
          | none => simp
          | some g =>
              have hne : ¬bytes = g.encode ++ rest := fun h => by
                rw [Guid.decode?_eq_some_iff.2 h] at hread
                cases hread
              simpa using hne
      | some parts =>
          obtain ⟨g, tail⟩ := parts
          cases guid with
          | none => simp
          | some g' =>
              rw [Guid.decode?_eq_some_iff] at hread
              subst hread
              have hiff := @Guid.decode?_eq_some_iff (g.encode ++ tail) rest g'
              rw [Guid.decode?_encode_append] at hiff
              simpa using hiff

/-! ### The three layouts with parts -/

theorem decodeCommon_eq_ok_iff {qualifier : Qualifier} {callback : Bool} {bytes : List UInt8}
    {body : Body} :
    decodeCommon qualifier callback bytes = .ok body
      ↔ ∃ rule : Rule, body = .common rule ∧ rule.qualifier = qualifier ∧ rule.callback = callback
          ∧ rule.extra.length ≤ maxCommonExtra ∧ bytes = encodeBody (.common rule) := by
  unfold decodeCommon
  constructor
  · intro h
    obtain ⟨⟨mask, rest⟩, hmask, hrest⟩ := Outcome.bind_eq_ok_iff.1 h
    obtain ⟨⟨sid, extra⟩, hsid, hextra⟩ := Outcome.bind_eq_ok_iff.1 hrest
    obtain rfl := decodeMask_eq_ok_iff.1 hmask
    obtain rfl := decodeSid_eq_ok_iff.1 hsid
    dsimp only at hextra
    split at hextra
    · cases hextra
    · rename_i hlimit
      cases hextra
      exact ⟨_, rfl, rfl, rfl, Nat.le_of_not_lt hlimit, rfl⟩
  · rintro ⟨⟨q, c, mask, sid, extra⟩, rfl, rfl, rfl, hlimit, rfl⟩
    rw [encodeBody, decodeMask_eq_ok_iff.2 rfl, Outcome.ok_bind]
    dsimp only
    rw [decodeSid_eq_ok_iff.2 rfl, Outcome.ok_bind]
    dsimp only at hlimit ⊢
    rw [if_neg (Nat.not_lt.2 hlimit)]
    rfl

/-- The target that the reader of object bodies returns announces itself by the word that it
read. -/
theorem encodeBody_object_of_word {word : Nat} (hlt : word < Nat.pow 256 4) {rule : Rule}
    {objectType inheritedType : Option Guid}
    (ho : objectType.isSome = (BitVec.ofNat 32 word).getLsbD Target.objectTypeBit)
    (hi : inheritedType.isSome = (BitVec.ofNat 32 word).getLsbD Target.inheritedTypeBit) :
    encodeBody (.object rule
        ⟨objectType, inheritedType, Target.reservedOf (BitVec.ofNat 32 word)⟩)
      = Octets.little 4 rule.mask.toNat ++ (Octets.little 4 word ++
          (objectType.toList.flatMap Guid.encode ++ (inheritedType.toList.flatMap Guid.encode ++
            (rule.sid.encode ++ rule.extra)))) := by
  have hvalue : (BitVec.ofNat 32 word).toNat = word := by
    have hword : word < 2 ^ 32 := hlt
    rw [BitVec.toNat_ofNat, Nat.mod_eq_of_lt hword]
  rw [encodeBody, Target.word_reservedOf ho hi, hvalue]
  simp only [Target.guids, List.flatMap_append, List.append_assoc]

theorem spelling_of_decodeObject {qualifier : Qualifier} {callback : Bool} {bytes : List UInt8}
    {body : Body} (h : decodeObject qualifier callback bytes = .ok body) :
    ∃ (rule : Rule) (target : Target), body = .object rule target
      ∧ rule.qualifier = qualifier ∧ rule.callback = callback ∧ target.IsProper
      ∧ rule.extra.length ≤ objectExtraLimit callback ∧ Body.Spelling body bytes := by
  unfold decodeObject at h
  obtain ⟨⟨mask, rest⟩, hmask, htail⟩ := Outcome.bind_eq_ok_iff.1 h
  obtain rfl := decodeMask_eq_ok_iff.1 hmask
  dsimp only at htail
  split at htail
  · cases htail
  rename_i word rest₀ hword
  obtain ⟨hlt, rfl⟩ := Octets.word?_eq_some_iff.1 hword
  obtain ⟨⟨objectType, rest₁⟩, hobject, htail₁⟩ := Outcome.bind_eq_ok_iff.1 htail
  obtain ⟨⟨inheritedType, rest₂⟩, hinherited, htail₂⟩ := Outcome.bind_eq_ok_iff.1 htail₁
  obtain ⟨⟨sid, extra⟩, hsid, hextra⟩ := Outcome.bind_eq_ok_iff.1 htail₂
  obtain ⟨ho, rfl⟩ := decodeGuid_eq_ok_iff.1 hobject
  obtain ⟨hi, rfl⟩ := decodeGuid_eq_ok_iff.1 hinherited
  obtain rfl := decodeSid_eq_ok_iff.1 hsid
  have hbytes := fun rule => @encodeBody_object_of_word word hlt rule objectType inheritedType ho hi
  have hproper := Target.isProper_reservedOf objectType inheritedType (BitVec.ofNat 32 word)
  dsimp only at hextra
  -- A callback entry keeps what stands behind the identifier; any other one ends there, or 32 bytes
  -- later, and these are dropped.
  split at hextra
  · rename_i hcallback
    split at hextra
    · cases hextra
    · rename_i hlimit
      cases hextra
      refine ⟨_, _, rfl, rfl, rfl, hproper, ?_, ?_⟩
      · rw [objectExtraLimit, if_pos hcallback]
        exact Nat.le_of_not_lt hlimit
      · rw [← hbytes ⟨qualifier, callback, mask, sid, extra⟩]
        exact .exact _
  · rename_i hcallback
    split at hextra
    · rename_i hlength
      cases hextra
      refine ⟨_, _, rfl, rfl, rfl, hproper, Nat.zero_le _, ?_⟩
      rcases hlength with hnil | hsurplus
      · rw [List.length_eq_zero_iff.1 hnil, ← hbytes ⟨qualifier, callback, mask, sid, []⟩]
        exact .exact _
      · have hspell := Body.Spelling.surplus ⟨qualifier, callback, mask, sid, []⟩
          ⟨objectType, inheritedType, Target.reservedOf (BitVec.ofNat 32 word)⟩ extra
          (Bool.eq_false_iff.2 hcallback) hsurplus
        rw [hbytes ⟨qualifier, callback, mask, sid, []⟩] at hspell
        simp only [List.append_assoc, List.append_nil] at hspell
        exact hspell
    · cases hextra

/-- The reader of object bodies on the parts of a body, with `tail` behind the identifier. -/
theorem decodeObject_parts {target : Target} (hproper : target.IsProper) (qualifier : Qualifier)
    (callback : Bool) (mask : Mask) (sid : Sid) (tail : List UInt8)
    (htail : if callback then tail.length ≤ maxObjectExtra
      else tail.length = 0 ∨ tail.length = toleratedSurplus) :
    decodeObject qualifier callback
        (encodeBody (.object ⟨qualifier, callback, mask, sid, tail⟩ target))
      = .ok (.object ⟨qualifier, callback, mask, sid, if callback then tail else []⟩ target) := by
  have hword : target.word.toNat % Nat.pow 256 4 = target.word.toNat :=
    Nat.mod_eq_of_lt target.word.isLt
  have ho : target.objectType.isSome = target.word.getLsbD Target.objectTypeBit := by
    rw [Target.getLsbD_word]
    rfl
  have hi : target.inheritedType.isSome = target.word.getLsbD Target.inheritedTypeBit := by
    rw [Target.getLsbD_word]
    rfl
  have hreserved :
      Bits.put (Bits.put target.word Target.objectTypeBit false) Target.inheritedTypeBit false
        = target.reserved := Target.reservedOf_word hproper
  rw [encodeBody, decodeObject, decodeMask_eq_ok_iff.2 rfl, Outcome.ok_bind]
  dsimp only
  rw [Octets.word?_little_append, hword]
  dsimp only
  rw [BitVec.ofNat_toNat, BitVec.setWidth_eq, Target.guids, List.flatMap_append, List.append_assoc,
    decodeGuid_eq_ok_iff.2 ⟨ho, rfl⟩, Outcome.ok_bind]
  dsimp only
  rw [decodeGuid_eq_ok_iff.2 ⟨hi, rfl⟩, Outcome.ok_bind]
  dsimp only
  rw [decodeSid_eq_ok_iff.2 rfl, Outcome.ok_bind, hreserved]
  cases callback with
  | true =>
      rw [if_pos rfl] at htail
      rw [if_pos rfl, if_neg (Nat.not_lt.2 htail)]
      rfl
  | false =>
      rw [if_neg Bool.false_ne_true] at htail
      rw [if_neg Bool.false_ne_true, if_pos htail]
      rfl

theorem decodeObject_of_spelling {rule : Rule} {target : Target} {bytes : List UInt8}
    (hproper : target.IsProper) (hlimit : rule.extra.length ≤ objectExtraLimit rule.callback)
    (h : Body.Spelling (.object rule target) bytes) :
    decodeObject rule.qualifier rule.callback bytes = .ok (.object rule target) := by
  rcases rule with ⟨qualifier, callback, mask, sid, extra⟩
  cases h with
  | exact =>
      cases callback with
      | true => exact decodeObject_parts hproper qualifier true mask sid extra hlimit
      | false =>
          obtain rfl : extra = [] := List.length_eq_zero_iff.1 (Nat.le_zero.1 hlimit)
          exact decodeObject_parts hproper qualifier false mask sid [] (.inl rfl)
  | surplus _ _ surplus hcallback hlength =>
      obtain rfl : callback = false := hcallback
      obtain rfl : extra = [] := List.length_eq_zero_iff.1 (Nat.le_zero.1 hlimit)
      have hread := decodeObject_parts hproper qualifier false mask sid surplus (.inr hlength)
      rw [if_neg Bool.false_ne_true] at hread
      simpa only [encodeBody, List.append_assoc, List.nil_append] using hread

theorem decodeCompound_eq_ok_iff {bytes : List UInt8} {body : Body} :
    decodeCompound bytes = .ok body
      ↔ ∃ mask sid, body = .compound mask sid ∧ Body.Spelling body bytes := by
  unfold decodeCompound
  constructor
  · intro h
    obtain ⟨⟨mask, rest⟩, hmask, htail⟩ := Outcome.bind_eq_ok_iff.1 h
    obtain rfl := decodeMask_eq_ok_iff.1 hmask
    dsimp only at htail
    split at htail
    · cases htail
    rename_i form rest₀ hform
    obtain ⟨hlt, rfl⟩ := Octets.word?_eq_some_iff.1 hform
    split at htail
    · cases htail
    rename_i hone
    obtain ⟨⟨sid, surplus⟩, hsid, hsurplus⟩ := Outcome.bind_eq_ok_iff.1 htail
    have hdrop := decodeSid_eq_ok_iff.1 hsid
    dsimp only at hsurplus
    split at hsurplus
    · rename_i hnil
      cases hsurplus
      -- An identifier has bytes, so the two bytes that were dropped were there.
      have hlength : (rest₀.take 2).length = 2 := by
        have hsize : (rest₀.drop 2).length = sid.size := by
          rw [hdrop, hnil, List.append_nil, Sid.length_encode]
        have hpos : 8 ≤ sid.size := by
          simp only [Sid.size, Sid.minSize]
          omega
        rw [List.length_drop] at hsize
        rw [List.length_take]
        omega
      refine ⟨mask, sid, rfl, ?_⟩
      have hspell := Body.Spelling.padded mask sid (rest₀.take 2) hlength
      rw [hnil, List.append_nil] at hdrop
      rwa [← hdrop, List.take_append_drop, ← Decidable.of_not_not hone] at hspell
    · cases hsurplus
  · rintro ⟨mask, sid, rfl, hspell⟩
    obtain ⟨padding, hlength, rfl⟩ : ∃ padding : List UInt8, padding.length = 2
        ∧ bytes = Octets.little 4 mask.toNat ++ (Octets.little 2 compoundForm ++
          (padding ++ sid.encode)) := by
      cases hspell with
      | exact => exact ⟨Octets.little 2 0, rfl, rfl⟩
      | padded _ _ padding hlength => exact ⟨padding, hlength, rfl⟩
    rw [decodeMask_eq_ok_iff.2 rfl, Outcome.ok_bind]
    dsimp only
    rw [Octets.word?_little_append]
    dsimp only
    rw [if_neg (by decide), ← hlength, List.drop_left,
      decodeSid_eq_ok_iff.2 (List.append_nil _).symm, Outcome.ok_bind]
    rfl

/-! ### The whole entry -/

theorem Header.decode?_eq_some_iff {bytes : List UInt8} {header : Header} :
    Header.decode? bytes = some header
      ↔ header.size < 65536 ∧ ∃ rest, bytes = header.code ::
          UInt8.ofNat header.flags.bits.toNat :: (Octets.little 2 header.size ++ rest) := by
  constructor
  · intro h
    match bytes, h with
    | code :: flags :: rest, h =>
        obtain ⟨⟨size, tail⟩, hword, hheader⟩ := Option.map_eq_some_iff.1 h
        obtain ⟨hlt, rfl⟩ := Octets.word?_eq_some_iff.1 hword
        subst hheader
        have hflags : UInt8.ofNat (BitVec.ofNat 8 flags.toNat).toNat = flags := by
          rw [BitVec.toNat_ofNat, Nat.mod_eq_of_lt flags.toNat_lt, UInt8.ofNat_toNat]
        exact ⟨hlt, tail, by rw [hflags]⟩
  · rintro ⟨hlt, rest, rfl⟩
    have hflags : (UInt8.ofNat header.flags.bits.toNat).toNat = header.flags.bits.toNat :=
      UInt8.toNat_ofNat_of_lt' header.flags.bits.isLt
    have hsize : header.size % Nat.pow 256 2 = header.size := Nat.mod_eq_of_lt hlt
    simp only [Header.decode?, Octets.word?_little_append, hflags, BitVec.ofNat_toNat,
      BitVec.setWidth_eq, hsize, Option.map_some]

/-- **The reader of bodies accepts exactly the spellings of what it returns.** -/
theorem decodeBody_eq_ok_iff {code : UInt8} {bytes : List UInt8} {body : Body}
    (hbytes : bytes.length ≤ maxCustomExtra) :
    decodeBody code (headerSize + bytes.length) bytes = .ok body
      ↔ body.code = code ∧ body.IsProper ∧ body.extra.length ≤ body.extraLimit
          ∧ body.Spelling bytes := by
  unfold decodeBody
  constructor
  · intro h
    -- The kind picks the reader, and what a reader returns is of the kind it was picked for.
    split at h
    · rename_i hkind
      rw [if_neg (Nat.not_lt.2 (Nat.le_add_right ..))] at h
      cases h
      exact ⟨rfl, Kind.ofCode?_eq_none_iff.1 hkind, hbytes, .exact (.custom code bytes)⟩
    · rename_i hkind
      obtain ⟨mask, sid, rfl, hspell⟩ := decodeCompound_eq_ok_iff.1 h
      exact ⟨Kind.code_of_ofCode? hkind, trivial, Nat.zero_le _, hspell⟩
    · rename_i qualifier callback hkind
      obtain ⟨rule, target, rfl, rfl, rfl, hproper, hlimit, hspell⟩ := spelling_of_decodeObject h
      exact ⟨Kind.code_of_ofCode? hkind, hproper, hlimit, hspell⟩
    · rename_i qualifier callback hkind
      obtain ⟨rule, rfl, rfl, rfl, hlimit, rfl⟩ := decodeCommon_eq_ok_iff.1 h
      exact ⟨Kind.code_of_ofCode? hkind, trivial, hlimit, .exact _⟩
  · rintro ⟨rfl, hproper, hlimit, hspell⟩
    cases body with
    | common rule =>
        obtain rfl : bytes = encodeBody (.common rule) := by cases hspell; rfl
        rw [Body.code, Kind.ofCode?_code]
        exact decodeCommon_eq_ok_iff.2 ⟨rule, rfl, rfl, rfl, hlimit, rfl⟩
    | object rule target =>
        rw [Body.code, Kind.ofCode?_code]
        exact decodeObject_of_spelling hproper hlimit hspell
    | compound mask sid =>
        rw [Body.code, Kind.ofCode?_code]
        exact decodeCompound_eq_ok_iff.2 ⟨mask, sid, rfl, hspell⟩
    | custom code extra =>
        obtain rfl : bytes = extra := by cases hspell; rfl
        rw [Body.code, Kind.ofCode?_eq_none_iff.2 hproper]
        exact if_neg (Nat.not_lt.2 (Nat.le_add_right ..))

/-- Below its header an entry that is declared too short for one has nothing to read. -/
theorem decodeBody_nil {code : UInt8} {size : Nat} (h : size < headerSize) (body : Body) :
    decodeBody code size [] ≠ .ok body := by
  intro hbody
  unfold decodeBody at hbody
  split at hbody
  · rw [if_pos h] at hbody
    cases hbody
  · cases hbody
  · cases hbody
  · cases hbody

/-- The number of bytes of a spelling, up to a multiple of four, is that of the extra bytes. -/
theorem length_spelling_mod {body : Body} {bytes : List UInt8} (h : body.Spelling bytes) :
    (headerSize + bytes.length) % 4 = body.extra.length % 4 := by
  rw [← Body.size_mod]
  cases h with
  | exact => rw [Body.headerSize_add_length_encodeBody]
  | padded mask sid padding h =>
      simp only [List.length_append, Octets.length_little, Sid.length_encode, h, headerSize,
        Body.size]
      omega
  | surplus rule target surplus hcallback h =>
      -- The surplus is a multiple of four itself.
      have hsurplus : headerSize + (encodeBody (.object rule target) ++ surplus).length
          = (Body.object rule target).size + 32 := by
        rw [List.length_append, ← Nat.add_assoc, Body.headerSize_add_length_encodeBody, h]
        rfl
      omega

/-- What is read as an entry is a header and a spelling of a well-formed body. -/
theorem exists_spelling_of_decode {bytes : List UInt8} {entry : Entry}
    (h : decode bytes = .ok entry) :
    entry.body.WellFormed ∧ ∃ body rest : List UInt8, entry.body.Spelling body
      ∧ body.length ≤ maxCustomExtra
      ∧ bytes = entry.code :: UInt8.ofNat entry.flags.bits.toNat ::
          (Octets.little 2 (headerSize + body.length) ++ (body ++ rest)) := by
  unfold decode at h
  split at h
  · cases h
  rename_i header hheader
  obtain ⟨hlt, tail, rfl⟩ := Header.decode?_eq_some_iff.1 hheader
  split at h
  · cases h
  rename_i scope rest hscope
  obtain ⟨hcut, hlength⟩ := Octets.split?_eq_some_iff.1 hscope
  split at h
  · cases h
  rename_i haligned
  obtain ⟨body, hbody, hentry⟩ := Outcome.bind_eq_ok_iff.1 h
  cases hentry
  rcases Nat.lt_or_ge header.size headerSize with hshort | hlong
  · have hnil : scope.drop headerSize = [] := List.drop_of_length_le (by omega)
    rw [hnil] at hbody
    exact absurd hbody (decodeBody_nil hshort body)
  · -- What is cut out behind the header is the front of the bytes behind the header.
    have hfront : tail = scope.drop headerSize ++ rest := by
      have hdrop := congrArg (List.drop headerSize) hcut
      rwa [List.drop_append_of_le_length (by omega), headerSize] at hdrop
    have hsize : header.size = headerSize + (scope.drop headerSize).length := by
      rw [List.length_drop]
      omega
    have hmax : (scope.drop headerSize).length ≤ maxCustomExtra := by
      simp only [maxCustomExtra, maxSize]
      omega
    rw [hsize] at hbody
    obtain ⟨hcode, hproper, hlimit, hspell⟩ := (decodeBody_eq_ok_iff hmax).1 hbody
    -- The declared size is a multiple of four, and so is the number of extra bytes.
    have hmod := length_spelling_mod hspell
    have hextra : body.extra.length % 4 = 0 := by omega
    refine ⟨⟨hextra, hlimit, hproper⟩, scope.drop headerSize, rest, hspell, hmax, ?_⟩
    rw [← hsize, ← hfront, code, hcode]

/-- The declared size of an entry that is read is a multiple of four. -/
theorem aligned_of_decode {bytes : List UInt8} {header : Header} {entry : Entry}
    (hheader : Header.decode? bytes = some header) (h : decode bytes = .ok entry) :
    header.size % 4 = 0 := by
  rw [decode, hheader] at h
  dsimp only at h
  split at h
  · cases h
  split at h
  · cases h
  · rename_i haligned
    exact Decidable.of_not_not haligned

/-- A header and a spelling of a well-formed body are read as the entry, whatever follows. -/
theorem decode_of_spelling {entry : Entry} (h : entry.body.WellFormed) {body : List UInt8}
    (hspell : entry.body.Spelling body) (hmax : body.length ≤ maxCustomExtra)
    (rest : List UInt8) :
    decode (entry.code :: UInt8.ofNat entry.flags.bits.toNat ::
      (Octets.little 2 (headerSize + body.length) ++ (body ++ rest))) = .ok entry := by
  have hmod := length_spelling_mod hspell
  have haligned := h.aligned
  have hlt : headerSize + body.length < 65536 := by
    simp only [maxCustomExtra, maxSize, headerSize] at hmax ⊢
    omega
  let header : Header := ⟨entry.code, entry.flags, headerSize + body.length⟩
  have hheader : Header.decode? (entry.code :: UInt8.ofNat entry.flags.bits.toNat ::
      (Octets.little 2 (headerSize + body.length) ++ (body ++ rest))) = some header :=
    Header.decode?_eq_some_iff.2 ⟨hlt, body ++ rest, rfl⟩
  have hcut : Octets.split? (headerSize + body.length)
      (entry.code :: UInt8.ofNat entry.flags.bits.toNat ::
        (Octets.little 2 (headerSize + body.length) ++ (body ++ rest)))
      = some (entry.code :: UInt8.ofNat entry.flags.bits.toNat ::
          (Octets.little 2 (headerSize + body.length) ++ body), rest) := by
    refine Octets.split?_eq_some_iff.2 ⟨?_, ?_⟩
    · simp only [List.cons_append, List.append_assoc]
    · simp only [List.length_cons, List.length_append, Octets.length_little, headerSize]
      omega
  have hread := (decodeBody_eq_ok_iff hmax).2 ⟨rfl, h.proper, h.bounded, hspell⟩
  unfold decode
  rw [hheader]
  dsimp only [header]
  rw [hcut]
  dsimp only
  rw [if_neg (by omega)]
  exact Outcome.bind_eq_ok_iff.2 ⟨entry.body, hread, rfl⟩

/-- **The reader of entries accepts exactly a header and a spelling of a well-formed body.** -/
theorem decode_eq_ok_iff {bytes : List UInt8} {entry : Entry} :
    decode bytes = .ok entry
      ↔ entry.body.WellFormed ∧ ∃ body rest : List UInt8, entry.body.Spelling body
          ∧ body.length ≤ maxCustomExtra
          ∧ bytes = entry.code :: UInt8.ofNat entry.flags.bits.toNat ::
              (Octets.little 2 (headerSize + body.length) ++ (body ++ rest)) := by
  constructor
  · exact exists_spelling_of_decode
  · rintro ⟨hwf, body, rest, hspell, hmax, rfl⟩
    exact decode_of_spelling hwf hspell hmax rest

/-- An entry has at least the bytes of its header. -/
theorem headerSize_le_size (entry : Entry) : headerSize ≤ entry.size := by
  rw [size, headerSize]
  cases entry.body <;> simp only [Body.size] <;> omega

/-- The size of a well-formed entry is a multiple of four. -/
theorem size_mod_of_wellFormed {entry : Entry} (h : entry.body.WellFormed) :
    entry.size % 4 = 0 := by
  rw [size, Body.size_mod, h.aligned]

/-- **The header of a well-formed entry holds its size**: nothing of it is cut off. -/
theorem Header.decode?_encode_append {entry : Entry} (h : entry.body.WellFormed)
    (rest : List UInt8) :
    Header.decode? (entry.encode ++ rest) = some ⟨entry.code, entry.flags, entry.size⟩ := by
  refine decode?_eq_some_iff.2 ⟨Nat.lt_succ_of_le h.size_le, encodeBody entry.body ++ rest, ?_⟩
  simp only [encode, List.cons_append, List.append_assoc]

/-- **A well-formed entry is read back from its binary form**, whatever follows. -/
theorem decode_encode_append {entry : Entry} (h : entry.body.WellFormed) (rest : List UInt8) :
    decode (entry.encode ++ rest) = .ok entry := by
  have hsize : entry.size = headerSize + (encodeBody entry.body).length :=
    (Body.headerSize_add_length_encodeBody entry.body).symm
  have hle := h.size_le
  refine decode_eq_ok_iff.2 ⟨h, encodeBody entry.body, rest, .exact _, ?_, ?_⟩
  · rw [← size, hsize] at hle
    simp only [maxCustomExtra]
    omega
  · rw [encode, hsize]
    simp only [List.cons_append, List.append_assoc]

end Entry

end SecurityDescriptor
