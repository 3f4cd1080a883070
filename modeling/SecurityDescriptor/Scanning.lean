/-
Reading text by position: the readers of text as programs on slices.

The readers of text take a text apart character by character.  The programs here go by positions
instead.  They look for the bytes at which a text is to be cut, work out where the parts begin and
end, and cut the text there; where the number of parts is not known beforehand they go round in a
loop until nothing is left of the text.  A cut at a position that the text does not have would trap,
and a loop that does not get on with the text would go on for ever.

Main definitions:

* `Token.scan`, `AccessList.scanEntries` — the loops;
* `Sections.mark`, `Sections.fill` — finding the sections of a text, and cutting them out;
* `Sid.Components` — the components of an identifier with their positions;
* `Guid.scan`, `Sid.scan`, `Entry.scan`, `AccessList.scan`, `Descriptor.scan` — the programs.
-/

import SecurityDescriptor.Descriptor.Text
import SecurityDescriptor.Looping
import SecurityDescriptor.Text.HexPairs
import SecurityDescriptor.Text.Slice

set_option relaxedAutoImplicit false
set_option autoImplicit false

namespace SecurityDescriptor

open Checked

/-! ### GUIDs -/

namespace Guid

/-- The number in the `width` bytes from `index` on, most significant byte first. -/
def bigWord (width : Nat) (bytes : List UInt8) (index : Nat) : Checked Nat := do
  return Octets.bigValue (← (List.range' index width).mapM (byte bytes))

/-- Whether the bytes of a text do not have the shape `8-4-4-4-12`. -/
def isMisshapen (bytes : List UInt8) : Checked Bool :=
  if bytes.length ≠ 36 then return true
  else hyphenColumns.anyM fun at_ => do return (← byte bytes at_) != '-'.toUInt8

/-- A group of digits: where it starts and stops in the text, and the place of its first byte. -/
structure Group where
  start : Nat
  stop : Nat
  place : Nat
  deriving DecidableEq, Repr

/-- The five groups of a text. -/
def groups : List Group := [⟨0, 8, 0⟩, ⟨9, 13, 4⟩, ⟨14, 18, 6⟩, ⟨19, 23, 8⟩, ⟨24, 36, 10⟩]

/-- Decodes a group of digits into its place. -/
def scanGroup (decode : HexDecoder) (bytes packed : List UInt8) (group : Group) :
    Checked (List UInt8) := do
  let width := (← sub group.stop group.start) / 2
  let digits ← between bytes group.start group.stop
  let room ← between packed group.place (← add group.place width)
  let decoded ← required (decode digits room.length) (.entry .guidDigit group.start)
  return Octets.overwrite packed group.place decoded.toList

/-- The GUID that is written in a text. -/
def scan (decode : HexDecoder) (text : List Char) : Checked Guid := do
  let bytes := Text.octets text
  if ← isMisshapen bytes then
    throw (.entry .guidShape 0)
  else
    let packed ← groups.foldlM (scanGroup decode bytes) (List.replicate size 0)
    let data4 ← fill 8 (← beyond packed 8)
    return ofFields (.ofNat (← bigWord 4 packed 0)) (.ofNat (← bigWord 2 packed 4))
      (.ofNat (← bigWord 2 packed 6)) data4

end Guid

/-! ### Identifiers -/

namespace Sid

/-- The components of a text that are still to be read, and the position of the first of them. -/
structure Components where
  position : Nat
  rest : List (List Char)
  deriving DecidableEq, Repr

namespace Components

/-- The components of a text. -/
def ofText (text : List Char) : Components := ⟨0, text.splitOn '-'⟩

/-- The next component with its position, if there is one more, and those behind it. -/
def next : Components → Checked (Option (Nat × List Char) × Components)
  | ⟨position, []⟩ => return (none, ⟨position, []⟩)
  | ⟨position, component :: rest⟩ => do
      let behind ← add position (← add (Text.width component) 1)
      return (some (position, component), ⟨behind, rest⟩)

end Components

/-- The sub-authorities of the components that are left, behind those that were `read`. -/
def scanSubAuthorities (position : Nat) (read : List UInt32) :
    List (List Char) → Checked (List UInt32)
  | [] => return read
  | component :: components => do
      let behind ← add position (← add (Text.width component) 1)
      let value ← required (Numeral.read? 10 (UInt32.size - 1) component)
        (.identifier .subAuthorityNotNumber position)
      if read.length = maxCount then
        throw (.identifier .tooManySubAuthorities position)
      else
        scanSubAuthorities behind (read ++ [.ofNat value]) components

/-- The identifier that is spelled by the components of a text of `width` bytes. -/
def scanComponents (width : Nat) (components : Components) : Checked Sid := do
  let (lead, components) ← components.next
  if lead.map Prod.snd = some ['S'] ∨ lead.map Prod.snd = some ['s'] then
    let (revision, components) ← components.next
    let (start, component) ← required revision (.identifier .missingComponent width)
    if component ≠ ['1'] then
      throw (.identifier .revision start)
    else
      let (authority, components) ← components.next
      let (start, component) ← required authority (.identifier .missingComponent width)
      let value ← settled (parseAuthority start component)
      let values ← scanSubAuthorities components.position [] components.rest
      settled (make value values)
  else
    throw (.identifier .missingLead 0)

/-- The identifier that is written in a text. -/
def scan (text : List Char) : Checked Sid :=
  match abbreviated? text with
  | some row => settled (make row.authority row.subAuthorities)
  | none =>
      if isDomainAbbreviation text then
        throw (.unsupportedForm .domainAbbreviation (String.ofList text))
      else
        scanComponents (Text.width text) (.ofText text)

end Sid

/-! ### Tokens -/

namespace Token

variable {α : Type}

/-- Reads tokens behind those whose values are in `read`, newest first, until nothing is left. -/
def Table.scanFrom (table : Table α) (read : List α) (rest : List Char) :
    Looping (Option (List α)) := do
  if rest = [] then
    return some read.reverse
  else
    match longest? table rest with
    | none => return none
    | some (token, value) =>
        let rest ← behind rest (Text.width token)
        table |>.scanFrom (value :: read) rest
partial_fixpoint

/-- The values of a text that is a run of tokens, in order. -/
def scan (table : Table α) (text : List Char) : Looping (Option (List α)) := table.scanFrom [] text

end Token

/-! ### Entries -/

/-- The mask that is written in a text. -/
def Mask.scan (text : List Char) : Looping Mask := do
  if text = [] then
    return 0
  else
    match hexDigits? text with
    | some digits => required (parseHex? digits) (.entry .maskNotHex 0)
    | none =>
        match ← Token.scan rights text with
        | some masks => return union masks
        | none => required (parseHex? text) (.entry .maskUnrecognised 0)

namespace Entry

variable (decode : HexDecoder)

/-- The object type that is written in a field, if there is one. -/
def scanGuid (field : List Char) : Checked (Option Guid) := do
  if field = [] then
    return none
  else
    let guid ← Guid.scan decode field
    return if guid.isNull then none else some guid

/-- The entry whose six fields are given. -/
def scanFields (kind flags mask objectType inheritedType sid : List Char) : Looping Entry := do
  match Kind.ofToken? kind with
  | none => throw (.entry .unknownKind 0)
  | some .compound => throw (.unavailable .compoundText Kind.compound.code)
  | some (.standard qualifier callback _) =>
      let list ← required (← Token.scan Flags.tokens flags) (.entry .unknownFlag 0)
      let mask ← Mask.scan mask
      let objectType ← scanGuid decode objectType
      let inheritedType ← scanGuid decode inheritedType
      let sid ← Sid.scan sid
      settled (ofParts (.ofList list) ⟨qualifier, callback, mask, sid, []⟩ objectType inheritedType)

/-- The entry that is written in a text. -/
def scan (text : List Char) : Looping Entry :=
  match text.splitOn ';' with
  | [kind, flags, mask, objectType, inheritedType, sid] =>
      scanFields decode kind flags mask objectType inheritedType sid
  | fields =>
      throw (.entry .fieldCount (if fields.length < fieldCount then 0 else Text.width text))

end Entry

/-! ### Lists -/

namespace AccessList

/-- The texts of entries that were cut off a text, newest first. -/
abbrev Tokens := List (List Char)

/-- Cuts entries behind those in `entries` off what is left of a text, which starts at `position`,
until nothing is left. -/
def Tokens.scanFrom (entries : Tokens) (position : Nat) (rest : List Char) :
    Looping (List (List Char)) := do
  match rest with
  | [] => return entries.reverse
  | c :: inner =>
      if c ≠ '(' then
        throw (.list .entryNotOpened position)
      else
        let close ← required (Text.find? ')' inner) (.list .entryNotClosed position)
        let token ← before inner close
        if token = [] ∨ '(' ∈ token then
          throw (.list .entryEmptyOrNested position)
        else
          let entries : Tokens := token :: entries
          let position ← add position (← add close 2)
          let rest ← behind inner (← add close 1)
          entries |>.scanFrom position rest
partial_fixpoint

/-- The texts of the entries of a run, without their parentheses. -/
def scanEntries (text : List Char) : Looping (List (List Char)) := Tokens.scanFrom [] 0 text

/-- The list that is written in a text. -/
def scan (decode : HexDecoder) (text : List Char) : Looping AccessList := do
  let tokens ← scanEntries text
  if tokens = [] then
    throw (.list .emptyBody 0)
  else
    let entries ← tokens.mapM (Entry.scan decode)
    settled (ofEntries (revisionFor entries) entries)

end AccessList

/-! ### Sections -/

namespace Sections

/-- How far the bytes of a text have been searched for sections. -/
structure Marks where
  /-- The number of parentheses that are open. -/
  depth : Nat
  /-- The letters of the sections that were found, with their positions, newest first. -/
  letters : List (UInt8 × Nat)
  deriving DecidableEq, Repr

/-- The letter before a position, if there is one, and its own position. -/
def letterBefore (bytes : List UInt8) (position : Nat) : Checked (Option (UInt8 × Nat)) := do
  if position = 0 then
    return .none
  else
    let start ← sub position 1
    let letter ← byte bytes start
    return if (Char.ofUInt8 letter).isAlpha then some (letter, start) else .none

/-- Looks at one more of the bytes of a text. -/
def mark (bytes : List UInt8) (marks : Marks) (next : UInt8 × Nat) : Checked Marks := do
  let (b, position) := next
  if b = '('.toUInt8 then
    return { marks with depth := ← Checked.add marks.depth 1 }
  else if b = ')'.toUInt8 then
    if marks.depth = 0 then
      throw (.descriptor .unbalanced position)
    else
      return { marks with depth := ← sub marks.depth 1 }
  else if b = ':'.toUInt8 ∧ marks.depth = 0 then
    let letter ← required (← letterBefore bytes position) (.descriptor .markWithoutLetter position)
    return { marks with letters := letter :: marks.letters }
  else
    return marks

/-- Cuts the sections with the given letters out of a text, up to the next letter or the end. -/
def fill (text : List Char) (sections : Sections) : List (UInt8 × Nat) → Checked Sections
  | [] => return sections
  | (letter, start) :: letters => do
      let stop := (letters.head?.map Prod.snd).getD (Text.width text)
      let first ← Checked.add start 2
      if stop < first then
        throw (.descriptor .sectionsOverlap start)
      else
        let content ← within text first stop
        let sections ← settled (sections.add ⟨Char.ofUInt8 letter, start, content.reverse⟩)
        fill text sections letters

/-- The contents of the sections of a text. -/
def scan (text : List Char) : Checked Sections := do
  let bytes := Text.octets text
  let marks ← bytes.zipIdx.foldlM (mark bytes) ⟨0, []⟩
  if marks.depth ≠ 0 then
    throw (.descriptor .unbalanced (Text.width text))
  else
    let letters := marks.letters.reverse
    match letters.head? with
    | some (_, 0) => fill text none letters
    | .none => if text = [] then return none else throw (.descriptor .noLeadingMark 0)
    | some _ => throw (.descriptor .noLeadingMark 0)

end Sections

/-! ### Descriptors -/

namespace Descriptor

/-- The identifier that is the content of an owner or group section. -/
def scanPrincipal (content : List Char) : Checked Sid :=
  if content = [] then throw (.descriptor .emptyPrincipal 0) else Sid.scan content

/-- What a list section says. -/
def scanListSection (decode : HexDecoder) (side : ListSide) (content : List Char) :
    Looping ListSection := do
  let split := (Text.find? '(' content).getD (Text.width content)
  let (marks, body) ← cut content split
  let tokens ← required (← Token.scan ListMark.tokens marks) (.descriptor .unknownListMark 0)
  let control := (ListMark.control side tokens).put side.presence true
  if tokens.contains .noAccessControl then
    if body = [] then
      return ⟨control, none⟩
    else
      throw (.descriptor .nullListWithEntries split)
  else if body = [] then
    throw (.descriptor .listMissing split)
  else
    let list ← AccessList.scan decode body
    return ⟨control, some list⟩

/-- What a section says that may be missing. -/
def scanSection {α : Type} (scan : List Char → Looping α) : Option (List Char) → Looping (Option α)
  | none => return none
  | some content => do return some (← scan content)

/-- The descriptor that is written in a text. -/
def scan (decode : HexDecoder) (text : List Char) : Looping Descriptor := do
  let sections ← Sections.scan text
  let owner ← scanSection (fun content => scanPrincipal content) sections.owner
  let group ← scanSection (fun content => scanPrincipal content) sections.group
  let dacl ← scanSection (scanListSection decode .discretionary) sections.dacl
  let sacl ← scanSection (scanListSection decode .system) sections.sacl
  return settle
    { control := (sectionControl dacl).union (sectionControl sacl)
      owner := owner
      group := group
      sacl := sacl.bind ListSection.list
      dacl := .ofOption (dacl.bind ListSection.list)
      resourceManager := none }

end Descriptor

end SecurityDescriptor
