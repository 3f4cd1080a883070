/-
Reading by position: the readers as programs on a slice.

A reader takes pieces off the front of the bytes.  The programs here leave the bytes where they are
and go by positions instead, each from the offset that it is given: they look a header up at fixed
places, work out where the next part begins, and cut the slice there.  Each of these steps could
trap.  What keeps them from it are checks that stand elsewhere, often in another program, so none of
the programs is safe to look at by itself.

Main definitions:

* `Sid.readAt`, `Entry.readAt`, `AccessList.readAt`, `Descriptor.readAt` — the programs;
* `Entry.readCommon`, `Entry.readObject`, `Entry.readCompound`, `Entry.readCustom` — the bodies of
  entries, in a slice that ends where the entry ends;
* `AccessList.readEntries` — the entries of a list, in a slice that ends where the list ends;
* `Descriptor.readSlot` — where a component begins;
* `Sid.measure`, `Body.measure` — sizes, worked out on machine words.
-/

import SecurityDescriptor.Checked
import SecurityDescriptor.Descriptor.Binary

set_option relaxedAutoImplicit false
set_option autoImplicit false

namespace SecurityDescriptor

open Checked

/-! ### Identifiers -/

namespace Sid

/-- The bytes in groups of four; what is left over at the end is dropped. -/
def quads : List UInt8 → List (List UInt8)
  | a :: b :: c :: d :: rest => [a, b, c, d] :: quads rest
  | _ => []

/-- The identifier that starts `offset` bytes into `bytes`. -/
def readAt (bytes : List UInt8) (offset : Nat) : Checked Sid := do
  let header ← required (slice? bytes offset minSize) (.identifier .shortHeader offset)
  if (← byte header 0) ≠ revision then
    throw (.identifier .revision offset)
  else
    let count := (← byte header 1).toNat
    if maxCount < count then
      throw (.identifier .tooManySubAuthorities (← add offset 1))
    else
      let authority ← between header 2 8
      let start ← add offset minSize
      let body ← required (slice? bytes start (← mul 4 count))
        (.identifier .truncatedSubAuthorities start)
      let words ← (quads body).mapM (word 4 · 0)
      settled (make (Octets.bigValue authority) (words.map UInt32.ofNat))

/-- The number of bytes of the binary form. -/
def measure (s : Sid) : Checked Nat := do
  add minSize (← mul 4 s.count)

end Sid

/-! ### Entries -/

namespace Guid

/-- The GUID in a place of sixteen bytes. -/
def readPacked (packed : List UInt8) : Checked Guid := do
  let data4 ← fill 8 (← beyond packed 8)
  return ofFields (.ofNat (← word 4 packed 0)) (.ofNat (← word 2 packed 4))
    (.ofNat (← word 2 packed 6)) data4

end Guid

namespace Body

/-- The number of bytes of an entry with this body. -/
def measure : Body → Checked Nat
  | common rule => do
      add (← add 8 (← rule.sid.measure)) rule.extra.length
  | object rule target => do
      let guids ← mul target.guids.length Guid.size
      add (← add (← add 12 guids) (← rule.sid.measure)) rule.extra.length
  | compound _ sid => do
      add 12 (← sid.measure)
  | custom _ extra => add Entry.headerSize extra.length

end Body

namespace Entry

/-- The body of a common entry. -/
def readCommon (qualifier : Qualifier) (callback : Bool) (entry : List UInt8) (offset : Nat) :
    Checked Body := do
  let mask ← required (← read? 4 entry (← add offset headerSize)) (.entry .maskMissing offset)
  let sid ← Sid.readAt entry (← add offset 8)
  let fixed ← add 8 (← sid.measure)
  let extra ← beyond entry (← add offset fixed)
  if maxCommonExtra < extra.length then
    throw (.entry .extraTooLong (← add offset fixed))
  else
    return .common ⟨qualifier, callback, .ofNat mask, sid, extra⟩

/-- The object type at `cursor`, if one is stored, and where the next part begins. -/
def readGuid (stored : Bool) (entry : List UInt8) (cursor : Nat) : Checked (Option Guid × Nat) :=
  if stored then do
    let raw ← required (slice? entry cursor Guid.size) (.entry .guidTruncated cursor)
    let next ← add cursor Guid.size
    let guid ← Guid.readPacked (← fill Guid.size raw)
    return (some guid, next)
  else
    return (none, cursor)

/-- The body of an object entry. -/
def readObject (qualifier : Qualifier) (callback : Bool) (entry : List UInt8) (offset : Nat) :
    Checked Body := do
  let _declared ← sub entry.length offset
  let mask ← required (← read? 4 entry (← add offset headerSize)) (.entry .objectMaskMissing offset)
  let word ← required (← read? 4 entry (← add offset 8)) (.entry .objectFlagsMissing offset)
  let word := BitVec.ofNat 32 word
  let reserved := Bits.put (Bits.put word Target.objectTypeBit false) Target.inheritedTypeBit false
  let cursor ← add offset 12
  let (objectType, cursor) ← readGuid (word.getLsbD Target.objectTypeBit) entry cursor
  let (inheritedType, cursor) ← readGuid (word.getLsbD Target.inheritedTypeBit) entry cursor
  let sid ← Sid.readAt entry cursor
  let fixed ← add (← sub cursor offset) (← sid.measure)
  let extra ← beyond entry (← add offset fixed)
  let target : Target := ⟨objectType, inheritedType, reserved⟩
  if callback then
    if maxObjectExtra < extra.length then
      throw (.entry .extraTooLong (← add offset fixed))
    else
      return .object ⟨qualifier, callback, .ofNat mask, sid, extra⟩ target
  else if extra.length = 0 ∨ extra.length = toleratedSurplus then
    return .object ⟨qualifier, callback, .ofNat mask, sid, []⟩ target
  else
    throw (.entry .objectSizeMismatch (← add offset 2))

/-- The body of a compound entry. -/
def readCompound (entry : List UInt8) (offset : Nat) : Checked Body := do
  let mask ← required (← read? 4 entry (← add offset headerSize))
    (.entry .compoundMaskMissing offset)
  let form ← required (← read? 2 entry (← add offset 8)) (.entry .compoundFormMissing offset)
  let place ← add offset 8
  if form ≠ compoundForm then
    throw (.entry .compoundFormUnknown place)
  else
    let sid ← Sid.readAt entry (← add offset 12)
    let body : Body := .compound (.ofNat mask) sid
    let size ← body.measure
    let declared ← sub entry.length offset
    if size ≠ declared then
      throw (.entry .compoundSizeMismatch (← add offset 2))
    else
      return body

/-- The body of a custom entry. -/
def readCustom (code : UInt8) (entry : List UInt8) (offset : Nat) : Checked Body := do
  if (← sub entry.length offset) < headerSize then
    throw (.entry .customShorterThanHeader (← add offset 2))
  else
    return .custom code (← beyond entry (← add offset headerSize))

/-- The body of an entry with the given code. -/
def readBody (code : UInt8) (entry : List UInt8) (offset : Nat) : Checked Body :=
  match Kind.ofCode? code with
  | none => readCustom code entry offset
  | some .compound => readCompound entry offset
  | some (.standard qualifier callback true) => readObject qualifier callback entry offset
  | some (.standard qualifier callback false) => readCommon qualifier callback entry offset

/-- The entry that starts `offset` bytes into `bytes`. -/
def readAt (bytes : List UInt8) (offset : Nat) : Checked Entry := do
  let header ← required (slice? bytes offset headerSize) (.entry .shortHeader offset)
  let code ← byte header 0
  let flags ← byte header 1
  let declared ← word 2 header 2
  let available ← sub bytes.length offset
  if available < declared then
    throw (.entry .beyondBuffer (← add offset 2))
  else if declared % 4 ≠ 0 then
    throw (.entry .misaligned (← add offset 2))
  else
    let entry ← upTo bytes (← add offset declared)
    let body ← readBody code entry offset
    return ⟨⟨BitVec.ofNat 8 flags.toNat⟩, body⟩

end Entry

/-! ### Lists -/

namespace AccessList

/-- `count` entries of a list that ends where `scope` ends.  The first is at `cursor`; the entries
before it and the header have `total` bytes. -/
def readEntries (revision : UInt8) (scope : List UInt8) :
    (count cursor total : Nat) → Checked (List Entry)
  | 0, _, _ => return []
  | count + 1, cursor, total => do
      let declared ← required (← read? 2 scope (← add cursor 2))
        (.list .entryHeaderBeyondEnd cursor)
      if scope.length < (← add cursor declared) then
        throw (.list .entryBeyondEnd cursor)
      else if declared % 4 ≠ 0 then
        throw (.list .entryMisaligned (← add cursor 2))
      else
        let entry ← Entry.readAt scope cursor
        let size ← entry.body.measure
        let total ← add total size
        if maxSize < total then
          throw (.list .tooLong cursor)
        else
          let next ← add cursor (stride revision declared size)
          let entries ← readEntries revision scope count next total
          return entry :: entries

/-- The list that starts `offset` bytes into `bytes`. -/
def readAt (bytes : List UInt8) (offset : Nat) : Checked AccessList := do
  let header ← required (slice? bytes offset headerSize) (.list .shortHeader offset)
  let revision ← byte header 0
  let declared ← word 2 header 2
  let count ← word 2 header 4
  let available ← sub bytes.length offset
  if available < declared then
    throw (.list .beyondBuffer (← add offset 2))
  else if declared < headerSize then
    throw (.list .shorterThanHeader (← add offset 2))
  else
    let scope ← upTo bytes (← add offset declared)
    let entries ← readEntries revision scope count (← add offset headerSize) headerSize
    return ⟨revision, entries⟩

end AccessList

/-! ### Descriptors -/

namespace Descriptor

/-- Where the component begins whose slot is `place` bytes into the header; nowhere if the slot
is zero. -/
def readSlot (header : List UInt8) (offset place : Nat) : Checked (Option Nat) := do
  let site ← add offset place
  let slot ← required (← read? 4 header place) (.descriptor .slotMissing site)
  if slot = 0 then
    return none
  else
    some <$> required (add? offset slot) (.descriptor .slotOverflow site)

/-- The component that begins at a position, if it begins anywhere and is in use. -/
def readComponent {α : Type} (read : Nat → Checked α) (inUse : Bool) (start? : Option Nat) :
    Checked (Option α) :=
  match inUse, start? with
  | true, some start => some <$> read start
  | _, _ => return none

/-- The descriptor that starts `offset` bytes into `bytes`. -/
def readAt (bytes : List UInt8) (offset : Nat) : Checked Descriptor := do
  let header ← required (slice? bytes offset headerSize) (.descriptor .shortHeader offset)
  if (← byte header 0) ≠ revision then
    throw (.descriptor .revision offset)
  else
    let resourceManager ← byte header 1
    let control : Control := ⟨BitVec.ofNat 16 (← word 2 header 2)⟩
    if control.has .selfRelative = false then
      throw (.unsupportedForm .absoluteDescriptor "absolute")
    else
      let owner ← readComponent (Sid.readAt bytes) true (← readSlot header offset 4)
      let group ← readComponent (Sid.readAt bytes) true (← readSlot header offset 8)
      let sacl ← readComponent (AccessList.readAt bytes) (control.has .saclPresent)
        (← readSlot header offset 12)
      let dacl ← readComponent (AccessList.readAt bytes) (control.has .daclPresent)
        (← readSlot header offset 16)
      let resourceManager :=
        if control.has .resourceManagerValid then some resourceManager else none
      return settle ⟨control, owner, group, sacl, .ofOption dacl, resourceManager⟩

end Descriptor

end SecurityDescriptor
