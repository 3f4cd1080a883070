/-
Globally unique identifiers of object types.

A GUID has four fields.  Its binary form stores the first three with the least significant byte
first and the last eight bytes as they stand; its text form `8-4-4-4-12` writes all of them with the
most significant digit first.  The last field is kept as one number, so that comparing fields in
order compares the texts.

Main definitions:

* `Guid`, `Guid.null`, `Guid.ofFields` — the type, its all-zero value, and its fields;
* `Guid.encode`, `Guid.decode?` — the binary form;
* `Guid.render`, `Guid.parse` — the text form; `Guid.ofString` reads it from a string;
* `Guid.sort` — GUIDs in field order.

Main results:

* `Guid.length_encode` — the binary form has `Guid.size` bytes;
* `Guid.decode?_encode_append` — **a GUID is read back from its binary form**, with what follows it.
-/

import SecurityDescriptor.Error
import SecurityDescriptor.Octets
import SecurityDescriptor.Text.Numeral
import SecurityDescriptor.Text.Width

set_option relaxedAutoImplicit false
set_option autoImplicit false

namespace SecurityDescriptor

/-- A globally unique identifier; `data4` is its last eight bytes as one number, first
byte highest. -/
structure Guid where
  data1 : UInt32
  data2 : UInt16
  data3 : UInt16
  data4 : UInt64
  deriving DecidableEq, Repr

namespace Guid

/-- The number of bytes of a GUID. -/
def size : Nat := 16

/-- The all-zero GUID; where a GUID may be left out it means that none is given. -/
def null : Guid := ⟨0, 0, 0, 0⟩

/-- Whether all fields are zero. -/
def isNull (g : Guid) : Bool := g == null

/-- A GUID from its fields, the last one as the eight bytes that are stored. -/
def ofFields (data1 : UInt32) (data2 data3 : UInt16) (data4 : List UInt8) : Guid :=
  ⟨data1, data2, data3, UInt64.ofNat (Octets.bigValue data4)⟩

/-! ### Order -/

instance : Ord Guid where
  compare a b :=
    (compare a.data1 b.data1).then <| (compare a.data2 b.data2).then <|
      (compare a.data3 b.data3).then (compare a.data4 b.data4)

/-- The GUIDs in ascending order. -/
def sort (guids : List Guid) : List Guid := guids.mergeSort fun a b => (compare a b).isLE

/-! ### Binary form -/

/-- The sixteen bytes of a GUID. -/
def encode (g : Guid) : List UInt8 :=
  Octets.little 4 g.data1.toNat ++ (Octets.little 2 g.data2.toNat ++
    (Octets.little 2 g.data3.toNat ++ Octets.big 8 g.data4.toNat))

/-- The GUID at the front of a byte string, and what follows it. -/
def decode? (bytes : List UInt8) : Option (Guid × List UInt8) := do
  let (data1, bytes) ← Octets.word? 4 bytes
  let (data2, bytes) ← Octets.word? 2 bytes
  let (data3, bytes) ← Octets.word? 2 bytes
  let (data4, bytes) ← Octets.split? 8 bytes
  return (ofFields (.ofNat data1) (.ofNat data2) (.ofNat data3) data4, bytes)

@[simp] theorem length_encode (g : Guid) : g.encode.length = size := by
  simp [encode, size]

/-- **A GUID is read back from its binary form.** -/
theorem decode?_encode_append (g : Guid) (rest : List UInt8) :
    decode? (g.encode ++ rest) = some (g, rest) := by
  have h1 : g.data1.toNat % 4294967296 = g.data1.toNat := Nat.mod_eq_of_lt g.data1.toNat_lt
  have h2 : g.data2.toNat % 65536 = g.data2.toNat := Nat.mod_eq_of_lt g.data2.toNat_lt
  have h3 : g.data3.toNat % 65536 = g.data3.toNat := Nat.mod_eq_of_lt g.data3.toNat_lt
  have h4 : Octets.bigValue (Octets.big 8 g.data4.toNat) = g.data4.toNat :=
    Octets.bigValue_big_of_lt g.data4.toNat_lt
  simp [decode?, encode, ofFields, List.append_assoc, h1, h2, h3, h4]

/-! ### Text form -/

/-- The text of a GUID, in lower case. -/
def render (g : Guid) : List Char :=
  Numeral.fixedHex 8 g.data1.toNat ++ '-' :: (Numeral.fixedHex 4 g.data2.toNat ++
    '-' :: (Numeral.fixedHex 4 g.data3.toNat ++
      '-' :: (Numeral.fixedHex 4 (g.data4.toNat / 0x1000000000000) ++
        '-' :: Numeral.fixedHex 12 g.data4.toNat)))

/-- The columns of the four hyphens. -/
def hyphenColumns : List Nat := [8, 13, 18, 23]

/-- Whether a text has the shape `8-4-4-4-12`, whatever stands between the hyphens. -/
def hasShape (text : List Char) : Bool :=
  let columns := Text.columns text
  columns.length == 36 && hyphenColumns.all fun i => columns[i]? == some '-'

/-- The number written in the group of `count` digits that starts in column `start`. -/
def parseGroup (columns : List Char) (start count : Nat) : Except Error Nat :=
  match Numeral.read? 16 (Nat.pow 16 count - 1) ((columns.drop start).take count) with
  | some n => .ok n
  | none => .error (.entry .guidDigit start)

/-- Reads the text form, in either case. -/
def parse (text : List Char) : Except Error Guid :=
  if hasShape text then do
    let columns := Text.columns text
    let data1 ← parseGroup columns 0 8
    let data2 ← parseGroup columns 9 4
    let data3 ← parseGroup columns 14 4
    let high ← parseGroup columns 19 4
    let low ← parseGroup columns 24 12
    return ⟨.ofNat data1, .ofNat data2, .ofNat data3, .ofNat (high * 0x1000000000000 + low)⟩
  else
    .error (.entry .guidShape 0)

instance : ToString Guid where
  toString g := String.ofList g.render

/-- Reads the text form from a string. -/
def ofString (text : String) : Except Error Guid := parse text.toList

end Guid

end SecurityDescriptor
