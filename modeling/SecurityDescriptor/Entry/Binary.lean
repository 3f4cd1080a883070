/-
The binary form of entries.

A header of four bytes holds the code, the flags and the size of the whole entry.  What follows
depends on the kind:

* common: mask, identifier, extra bytes;
* object: mask, flag word, the stored object types, identifier, extra bytes;
* compound: mask, the number 1, two bytes without a meaning, identifier;
* custom: extra bytes.

The reader cuts the entry out of its surroundings first, so nothing past its declared size is looked
at.  Some writers declare an object entry without a callback 32 bytes too great; the reader forgives
exactly this, and the writer never does it.

Main definitions:

* `Entry.encode`, `Entry.decode` — the binary form and its reader;
* `Entry.Header`, `Entry.Header.decode?` — what is read before the body;
* `Entry.decodeAt` — the entry at an offset.

Main results:

* `Entry.length_encode` — **the binary form has `Entry.size` bytes**.
-/

import SecurityDescriptor.Entry.Basic
import SecurityDescriptor.Sid.Binary

set_option relaxedAutoImplicit false
set_option autoImplicit false

namespace SecurityDescriptor

namespace Entry

/-! ### Writing -/

/-- The number that marks the only form of compound entries. -/
def compoundForm : Nat := 1

/-- The bytes that follow the header. -/
def encodeBody : Body → List UInt8
  | .common rule => Octets.little 4 rule.mask.toNat ++ (rule.sid.encode ++ rule.extra)
  | .object rule target =>
      Octets.little 4 rule.mask.toNat ++ (Octets.little 4 target.word.toNat ++
        (target.guids.flatMap Guid.encode ++ (rule.sid.encode ++ rule.extra)))
  | .compound mask sid =>
      Octets.little 4 mask.toNat ++ (Octets.little 2 compoundForm ++
        (Octets.little 2 0 ++ sid.encode))
  | .custom _ extra => extra

/-- The binary form of an entry. -/
def encode (entry : Entry) : List UInt8 :=
  entry.code :: UInt8.ofNat entry.flags.bits.toNat ::
    (Octets.little 2 entry.size ++ encodeBody entry.body)

/-! ### Reading -/

/-- The header of an entry. -/
structure Header where
  code : UInt8
  flags : Flags
  size : Nat
  deriving DecidableEq, Repr

/-- The header at the front of a byte string. -/
def Header.decode? : List UInt8 → Option Header
  | code :: flags :: rest =>
      (Octets.word? 2 rest).map fun (size, _) => ⟨code, ⟨BitVec.ofNat 8 flags.toNat⟩, size⟩
  | _ => none

/-- Reads the mask of a body; `fault` is reported if it is missing. -/
def decodeMask (fault : EntryFault) (bytes : List UInt8) : Except Error (Mask × List UInt8) :=
  match Octets.word? 4 bytes with
  | some (mask, rest) => .ok (UInt32.ofNat mask, rest)
  | none => .error (.entry fault 0)

/-- Reads the identifier that starts `start` bytes into the entry. -/
def decodeSid (start : Nat) (bytes : List UInt8) : Except Error (Sid × List UInt8) := do
  let sid ← (Sid.decode bytes).mapError (Error.shift start)
  return (sid, bytes.drop sid.size)

/-- Reads the object type that starts `start` bytes into the entry, if one is stored. -/
def decodeGuid (stored : Bool) (start : Nat) (bytes : List UInt8) :
    Except Error (Option Guid × List UInt8) :=
  if stored then
    match Guid.decode? bytes with
    | some (guid, rest) => .ok (some guid, rest)
    | none => .error (.entry .guidTruncated start)
  else
    .ok (none, bytes)

/-- Reads what follows the header of a common entry. -/
def decodeCommon (qualifier : Qualifier) (callback : Bool) (body : List UInt8) :
    Except Error Body := do
  let (mask, rest) ← decodeMask .maskMissing body
  let (sid, extra) ← decodeSid 8 rest
  if maxCommonExtra < extra.length then
    .error (.entry .extraTooLong (8 + sid.size))
  else
    return .common ⟨qualifier, callback, mask, sid, extra⟩

/-- The surplus that some writers declare for an object entry without a callback. -/
def toleratedSurplus : Nat := 2 * Guid.size

/-- Reads what follows the header of an object entry. -/
def decodeObject (qualifier : Qualifier) (callback : Bool) (body : List UInt8) :
    Except Error Body := do
  let (mask, rest) ← decodeMask .objectMaskMissing body
  match Octets.word? 4 rest with
  | none => .error (.entry .objectFlagsMissing 0)
  | some (word, rest) =>
      let word := BitVec.ofNat 32 word
      let reserved :=
        Bits.put (Bits.put word Target.objectTypeBit false) Target.inheritedTypeBit false
      let (objectType, rest) ← decodeGuid (word.getLsbD Target.objectTypeBit) 12 rest
      let start := 12 + Guid.size * objectType.toList.length
      let (inheritedType, rest) ← decodeGuid (word.getLsbD Target.inheritedTypeBit) start rest
      let start := start + Guid.size * inheritedType.toList.length
      let (sid, extra) ← decodeSid start rest
      let target : Target := ⟨objectType, inheritedType, reserved⟩
      if callback then
        if maxObjectExtra < extra.length then
          .error (.entry .extraTooLong (start + sid.size))
        else
          return .object ⟨qualifier, callback, mask, sid, extra⟩ target
      else if extra.length = 0 ∨ extra.length = toleratedSurplus then
        return .object ⟨qualifier, callback, mask, sid, []⟩ target
      else
        .error (.entry .objectSizeMismatch 2)

/-- Reads what follows the header of a compound entry. -/
def decodeCompound (body : List UInt8) : Except Error Body := do
  let (mask, rest) ← decodeMask .compoundMaskMissing body
  match Octets.word? 2 rest with
  | none => .error (.entry .compoundFormMissing 0)
  | some (form, rest) =>
      if form ≠ compoundForm then
        .error (.entry .compoundFormUnknown 8)
      else do
        let (sid, surplus) ← decodeSid 12 (rest.drop 2)
        if surplus = [] then
          return .compound mask sid
        else
          .error (.entry .compoundSizeMismatch 2)

/-- Reads what follows the header of an entry with the given code, in an entry of `size` bytes. -/
def decodeBody (code : UInt8) (size : Nat) (body : List UInt8) : Except Error Body :=
  match Kind.ofCode? code with
  | none =>
      if size < headerSize then .error (.entry .customShorterThanHeader 2)
      else .ok (.custom code body)
  | some .compound => decodeCompound body
  | some (.standard qualifier callback true) => decodeObject qualifier callback body
  | some (.standard qualifier callback false) => decodeCommon qualifier callback body

/-- Reads an entry. -/
def decode : Decoder Entry := fun bytes =>
  match Header.decode? bytes with
  | none => .error (.entry .shortHeader 0)
  | some header =>
      match Octets.split? header.size bytes with
      | none => .error (.entry .beyondBuffer 2)
      | some (entry, _) =>
          if header.size % 4 ≠ 0 then
            .error (.entry .misaligned 2)
          else do
            let body ← decodeBody header.code header.size (entry.drop headerSize)
            return ⟨header.flags, body⟩

/-- The entry that starts `offset` bytes into `bytes`. -/
def decodeAt (bytes : List UInt8) (offset : Nat) : Except Error Entry :=
  Decoder.startingAt decode bytes offset

/-! ### Length -/

theorem length_flatMap_encode (guids : List Guid) :
    (guids.flatMap Guid.encode).length = Guid.size * guids.length := by
  induction guids with
  | nil => rfl
  | cons guid guids ih =>
    rw [List.flatMap_cons, List.length_append, Guid.length_encode, ih, List.length_cons,
      Nat.mul_succ, Nat.add_comm]

/-- **The binary form of an entry has as many bytes as its size says.** -/
@[simp] theorem length_encode (entry : Entry) : entry.encode.length = entry.size := by
  rcases entry with ⟨flags, rule | ⟨rule, target⟩ | ⟨mask, sid⟩ | ⟨code, extra⟩⟩ <;>
    simp only [encode, encodeBody, size, Body.size, List.length_cons, List.length_append,
      Octets.length_little, Sid.length_encode, length_flatMap_encode] <;>
    omega

end Entry

end SecurityDescriptor
