/-
The text form of entries: six fields separated by semicolons.

The fields are kind, flags, mask, object type, inherited object type and identifier.  Extra bytes
have no text, and neither have compound and custom entries.  What is read depends on the two type
fields: if both are empty or all zero the entry is a common one, whatever the token of its kind
says, and an object entry otherwise.  Likewise an object entry without object types is written as a
common one.

Main definitions:

* `Entry.render`, `Entry.parse` — the text of an entry, without parentheses, and its reader;
* `Entry.text`, `Entry.ofString` — the same for strings.
-/

import SecurityDescriptor.Entry.Basic
import SecurityDescriptor.Sid.Text

set_option relaxedAutoImplicit false
set_option autoImplicit false

namespace SecurityDescriptor

namespace Entry

/-! ### Writing -/

/-- The text of an object type that may be missing. -/
def renderGuid (guid : Option Guid) : List Char := (guid.map Guid.render).getD []

/-- The six fields of an entry with the given rule and object types. -/
def renderFields (flags : Flags) (rule : Rule) (objectType inheritedType : Option Guid) :
    Except Error (List Char) :=
  let kind := Kind.standard rule.qualifier rule.callback (objectType.isSome || inheritedType.isSome)
  match kind.token? with
  | none => .error (.unavailable .kindWithoutToken kind.code)
  | some token =>
      .ok (token.toList ++ ';' :: (flags.render ++ ';' :: (Mask.render rule.mask ++
        ';' :: (renderGuid objectType ++ ';' :: (renderGuid inheritedType ++
          ';' :: rule.sid.render)))))

/-- The text of an entry. -/
def render (entry : Entry) : Except Error (List Char) :=
  match entry.body with
  | .common rule => renderFields entry.flags rule none none
  | .object rule target => renderFields entry.flags rule target.objectType target.inheritedType
  | .compound _ _ | .custom _ _ => .error (.unavailable .bodyWithoutText entry.code)

/-! ### Reading -/

/-- Reads an object type field; an empty field and the all-zero GUID both mean that there
is none. -/
def parseGuid (field : List Char) : Except Error (Option Guid) :=
  if field = [] then .ok none
  else do
    let guid ← Guid.parse field
    return if guid.isNull then none else some guid

/-- The entry with the given parts: a common one if it is not limited to object types. -/
def ofParts (flags : Flags) (rule : Rule) (objectType inheritedType : Option Guid) :
    Except Error Entry :=
  if objectType.isNone && inheritedType.isNone then ofCommon flags rule
  else ofObject flags rule objectType inheritedType

/-- Reads the six fields of an entry. -/
def parseFields (kind flags mask objectType inheritedType sid : List Char) : Except Error Entry :=
  match Kind.ofToken? kind with
  | none => .error (.entry .unknownKind 0)
  | some .compound => .error (.unavailable .compoundText Kind.compound.code)
  | some (.standard qualifier callback _) =>
      match Flags.parse? flags with
      | none => .error (.entry .unknownFlag 0)
      | some flags => do
          let mask ← Mask.parse mask
          let objectType ← parseGuid objectType
          let inheritedType ← parseGuid inheritedType
          let sid ← Sid.parse sid
          ofParts flags ⟨qualifier, callback, mask, sid, []⟩ objectType inheritedType

/-- The number of fields of an entry. -/
def fieldCount : Nat := 6

/-- Reads the text of an entry. -/
def parse (text : List Char) : Except Error Entry :=
  match text.splitOn ';' with
  | [kind, flags, mask, objectType, inheritedType, sid] =>
      parseFields kind flags mask objectType inheritedType sid
  | fields =>
      .error (.entry .fieldCount (if fields.length < fieldCount then 0 else Text.width text))

/-! ### Strings -/

/-- The text of an entry as a string. -/
def text (entry : Entry) : Except Error String := entry.render.map String.ofList

/-- Reads an entry from a string. -/
def ofString (text : String) : Except Error Entry := parse text.toList

end Entry

end SecurityDescriptor
