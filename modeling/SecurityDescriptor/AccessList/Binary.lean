/-
The binary form of access control lists.

A header of eight bytes holds the revision, the size of the whole list and the number of entries;
the entries follow.  Some writers of directory service lists declare an entry greater than it is and
leave the declared space unused, so in such lists the reader goes from entry to entry by the
declared size; in all others it goes by the true size.

Main definitions:

* `AccessList.encode`, `AccessList.decode` — the binary form and its reader;
* `AccessList.decodeEntries` — the reader of the entries;
* `AccessList.decodeAt` — the list at an offset.

Main results:

* `AccessList.length_encode` — **the binary form has `AccessList.size` bytes**.
-/

import SecurityDescriptor.AccessList.Basic
import SecurityDescriptor.Entry.Binary

set_option relaxedAutoImplicit false
set_option autoImplicit false

namespace SecurityDescriptor

namespace AccessList

/-! ### Writing -/

/-- The binary form of a list. -/
def encode (list : AccessList) : List UInt8 :=
  list.revision :: 0 ::
    (Octets.little 2 list.size ++ (Octets.little 2 list.count ++
      (Octets.little 2 0 ++ list.entries.flatMap Entry.encode)))

/-! ### Reading -/

/-- The header of a list. -/
structure Header where
  revision : UInt8
  size : Nat
  count : Nat
  deriving DecidableEq, Repr

/-- The header at the front of a byte string, if all its bytes are there. -/
def Header.decode? : List UInt8 → Option Header
  | revision :: _ :: rest => do
      let (size, rest) ← Octets.word? 2 rest
      let (count, rest) ← Octets.word? 2 rest
      let _ ← Octets.split? 2 rest
      return ⟨revision, size, count⟩
  | _ => none

/-- The number of bytes from an entry to the next one. -/
def stride (revision : UInt8) (declared actual : Nat) : Nat :=
  if revision = directoryRevision then declared else actual

/-- Reads `count` entries.  The first starts `start` bytes into the list, at the front of `bytes`,
which end where the list ends; the entries before it and the header have `total` bytes. -/
def decodeEntries (revision : UInt8) :
    (count start total : Nat) → (bytes : List UInt8) → Except Error (List Entry)
  | 0, _, _, _ => .ok []
  | count + 1, start, total, bytes =>
      match Entry.Header.decode? bytes with
      | none => .error (.list .entryHeaderBeyondEnd start)
      | some header =>
          if Octets.split? header.size bytes = none then
            .error (.list .entryBeyondEnd start)
          else if header.size % 4 ≠ 0 then
            .error (.list .entryMisaligned (start + 2))
          else do
            let entry ← (Entry.decode bytes).mapError (Error.shift start)
            let total := total + entry.size
            if maxSize < total then
              .error (.list .tooLong start)
            else
              let step := stride revision header.size entry.size
              let entries ← decodeEntries revision count (start + step) total (bytes.drop step)
              return entry :: entries

/-- Reads a list. -/
def decode : Decoder AccessList := fun bytes =>
  match Header.decode? bytes with
  | none => .error (.list .shortHeader 0)
  | some header =>
      match Octets.split? header.size bytes with
      | none => .error (.list .beyondBuffer 2)
      | some (scope, _) =>
          if header.size < headerSize then
            .error (.list .shorterThanHeader 2)
          else do
            let entries ← decodeEntries header.revision header.count headerSize headerSize
              (scope.drop headerSize)
            return ⟨header.revision, entries⟩

/-- The list that starts `offset` bytes into `bytes`. -/
def decodeAt (bytes : List UInt8) (offset : Nat) : Except Error AccessList :=
  Decoder.startingAt decode bytes offset

/-! ### Length -/

theorem length_flatMap_encode (entries : List Entry) :
    (entries.flatMap Entry.encode).length = entriesSize entries := by
  induction entries with
  | nil => rfl
  | cons entry entries ih =>
    rw [List.flatMap_cons, List.length_append, Entry.length_encode, ih, entriesSize]

/-- **The binary form of a list has as many bytes as its size says.** -/
@[simp] theorem length_encode (list : AccessList) : list.encode.length = list.size := by
  simp only [encode, size, headerSize, List.length_cons, List.length_append, Octets.length_little,
    length_flatMap_encode]
  omega

end AccessList

end SecurityDescriptor
