/-
Access control lists: entries in order, under a revision number.

The order of entries decides what a list grants, so no operation here changes it.  The size field of
a list has 16 bits; every operation that adds bytes refuses to pass that ceiling and then leaves the
list as it was.

Main definitions:

* `AccessList`, `AccessList.empty`, `AccessList.ofEntries` — the type, and lists from their entries;
* `AccessList.insert`, `AccessList.push`, `AccessList.remove`, `AccessList.replace` — edits;
* `AccessList.size` — the number of bytes of the binary form.

Main results:

* `AccessList.size_mk` — the size of a list is that of its header and its entries.
-/

import SecurityDescriptor.Entry.Basic

set_option relaxedAutoImplicit false
set_option autoImplicit false

namespace SecurityDescriptor

/-- An access control list. -/
structure AccessList where
  revision : UInt8
  entries : List Entry
  deriving DecidableEq, Repr

namespace AccessList

/-- The revision of lists without object entries. -/
def plainRevision : UInt8 := 2

/-- The revision of directory service lists, which may hold object entries. -/
def directoryRevision : UInt8 := 4

/-- The number of bytes before the entries. -/
def headerSize : Nat := 8

/-- The greatest size of a list: the size field has 16 bits. -/
def maxSize : Nat := 65535

/-- The list without entries. -/
def empty (revision : UInt8) : AccessList := ⟨revision, []⟩

/-- The number of entries. -/
def count (list : AccessList) : Nat := list.entries.length

/-- The number of bytes of the given entries. -/
def entriesSize : List Entry → Nat
  | [] => 0
  | entry :: entries => entry.size + entriesSize entries

/-- The number of bytes of a list. -/
def size (list : AccessList) : Nat := headerSize + entriesSize list.entries

theorem size_mk (revision : UInt8) (entries : List Entry) :
    size ⟨revision, entries⟩ = headerSize + entriesSize entries := rfl

/-- The entry at an index. -/
def get? (list : AccessList) (index : Nat) : Option Entry := list.entries[index]?

/-- Refuses a size that the size field cannot hold. -/
def checkSize (size : Nat) : Except Error Unit :=
  if maxSize < size then .error (.outOfRange .listLength size maxSize) else .ok ()

/-- The error for an index that is not below `bound`. -/
def indexError (index bound : Nat) : Error := .outOfRange .entryIndex index (bound - 1)

/-- The list of the given entries. -/
def ofEntries (revision : UInt8) (entries : List Entry) : Except Error AccessList := do
  checkSize (headerSize + entriesSize entries)
  return ⟨revision, entries⟩

/-- The list with an entry put before the one at `index`, or at the end. -/
def insert (list : AccessList) (index : Nat) (entry : Entry) : Except Error AccessList :=
  if list.count < index then
    .error (indexError index (list.count + 1))
  else do
    checkSize (list.size + entry.size)
    return { list with entries := list.entries.insertIdx index entry }

/-- The list with an entry put at the end. -/
def push (list : AccessList) (entry : Entry) : Except Error AccessList :=
  list.insert list.count entry

/-- The entry at `index`, and the list without it. -/
def remove (list : AccessList) (index : Nat) : Except Error (Entry × AccessList) :=
  match list.get? index with
  | none => .error (indexError index list.count)
  | some entry => .ok (entry, { list with entries := list.entries.eraseIdx index })

/-- The entry at `index`, and the list with another one in its place. -/
def replace (list : AccessList) (index : Nat) (entry : Entry) : Except Error (Entry × AccessList) :=
  match list.get? index with
  | none => .error (indexError index list.count)
  | some old => do
      checkSize (list.size - old.size + entry.size)
      return (old, { list with entries := list.entries.set index entry })

end AccessList

end SecurityDescriptor
