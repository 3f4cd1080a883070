/-
Access control entries.

An entry is a set of flags and a body.  A common body states a rule: which access mask, for which
identifier, allowed, denied or audited.  An object body states a rule and limits it to object types.
A compound body names a principal to be impersonated.  A custom body belongs to a code that this
library does not know, and is kept as bytes.

Common, object and custom bodies may carry extra bytes at their end.  The number of extra bytes is a
multiple of four within a limit that leaves room for the greatest identifier, so every entry fits in
a size field of 16 bits.

Main definitions:

* `Rule`, `Target`, `Body`, `Entry` — the data of an entry;
* `Entry.ofCommon`, `Entry.ofObject`, `Entry.ofCompound`, `Entry.ofCustom` — entries from their
  parts;
* `Entry.withFlags`, `Entry.withMask?`, `Entry.withSid?`, `Entry.withExtra?`,
  `Entry.withObjectType?`, `Entry.withInheritedType?` — entries with one part replaced, where the
  body has that part;
* `Entry.size` — the number of bytes of the binary form.
-/

import SecurityDescriptor.Entry.Flags
import SecurityDescriptor.Entry.Kind
import SecurityDescriptor.Entry.Mask
import SecurityDescriptor.Guid
import SecurityDescriptor.Sid.Basic

set_option relaxedAutoImplicit false
set_option autoImplicit false

namespace SecurityDescriptor

/-! ### The data of an entry -/

/-- What a common entry says: the qualifier decides about the accesses of the mask for the
identifier, with extra bytes for an application. -/
structure Rule where
  qualifier : Qualifier
  callback : Bool
  mask : Mask
  sid : Sid
  extra : List UInt8
  deriving DecidableEq, Repr

/-- The object types that an object entry is limited to.  Flag bits that have no meaning
are kept. -/
structure Target where
  objectType : Option Guid
  inheritedType : Option Guid
  reserved : BitVec 32
  deriving DecidableEq, Repr

/-- What follows the header of an entry. -/
inductive Body
  | common (rule : Rule)
  | object (rule : Rule) (target : Target)
  | compound (mask : Mask) (sid : Sid)
  | custom (code : UInt8) (extra : List UInt8)
  deriving DecidableEq, Repr

/-- An access control entry. -/
structure Entry where
  flags : Flags
  body : Body
  deriving DecidableEq, Repr

namespace Target

/-- The position of the flag that says whether an object type is stored. -/
def objectTypeBit : Nat := 0

/-- The position of the flag that says whether an inherited object type is stored. -/
def inheritedTypeBit : Nat := 1

/-- The flag word of an object entry: which types are stored, and the bits without a meaning. -/
def word (target : Target) : BitVec 32 :=
  Bits.put (Bits.put target.reserved objectTypeBit target.objectType.isSome)
    inheritedTypeBit target.inheritedType.isSome

/-- The stored types, in the order in which they are stored. -/
def guids (target : Target) : List Guid := target.objectType.toList ++ target.inheritedType.toList

/-- Whether the entry is limited at all. -/
def isEmpty (target : Target) : Bool := target.objectType.isNone && target.inheritedType.isNone

end Target

namespace Body

/-- The code of an entry with this body. -/
def code : Body → UInt8
  | common rule => (Kind.standard rule.qualifier rule.callback false).code
  | object rule _ => (Kind.standard rule.qualifier rule.callback true).code
  | compound _ _ => Kind.compound.code
  | custom code _ => code

/-- The mask of a body; a custom body has none. -/
def mask? : Body → Option Mask
  | common rule | object rule _ => some rule.mask
  | compound mask _ => some mask
  | custom _ _ => none

/-- The identifier in a body; a custom body has none. -/
def sid? : Body → Option Sid
  | common rule | object rule _ => some rule.sid
  | compound _ sid => some sid
  | custom _ _ => none

/-- The extra bytes of a body; a compound body has none. -/
def extra : Body → List UInt8
  | common rule | object rule _ => rule.extra
  | compound _ _ => []
  | custom _ extra => extra

/-- The number of bytes of an entry with this body, the header included. -/
def size : Body → Nat
  | common rule => 8 + rule.sid.size + rule.extra.length
  | object rule target =>
      12 + Guid.size * target.guids.length + rule.sid.size + rule.extra.length
  | compound _ sid => 12 + sid.size
  | custom _ extra => 4 + extra.length

end Body

namespace Entry

/-- The greatest size of an entry: the size field has 16 bits. -/
def maxSize : Nat := 65535

/-- The number of bytes before the body. -/
def headerSize : Nat := 4

/-- The limit of the extra bytes of a common entry. -/
def maxCommonExtra : Nat := maxSize - headerSize - 4 - Sid.maxSize

/-- The limit of the extra bytes of an object entry of callback form. -/
def maxObjectExtra : Nat := maxSize - headerSize - 8 - 2 * Guid.size - Sid.maxSize

/-- The limit of the extra bytes of a custom entry. -/
def maxCustomExtra : Nat := maxSize - headerSize

/-- The limit of the extra bytes of an object entry.  Without a callback there are none, which is
what lets a reader recognise an entry that declares too great a size. -/
def objectExtraLimit (callback : Bool) : Nat := if callback then maxObjectExtra else 0

/-- The extra bytes, if their number is a multiple of four within the limit. -/
def checkExtra (limit : Nat) (extra : List UInt8) : Except Error Unit :=
  if limit < extra.length then .error (.outOfRange .extraLength extra.length limit)
  else if extra.length % 4 ≠ 0 then .error (.outOfRange .extraAlignment extra.length limit)
  else .ok ()

/-! ### Entries from their parts -/

/-- A common entry. -/
def ofCommon (flags : Flags) (rule : Rule) : Except Error Entry := do
  checkExtra maxCommonExtra rule.extra
  return ⟨flags, .common rule⟩

/-- An object entry, possibly without any object type. -/
def ofObject (flags : Flags) (rule : Rule) (objectType inheritedType : Option Guid) :
    Except Error Entry := do
  checkExtra (objectExtraLimit rule.callback) rule.extra
  return ⟨flags, .object rule ⟨objectType, inheritedType, 0⟩⟩

/-- A compound entry. -/
def ofCompound (flags : Flags) (mask : Mask) (sid : Sid) : Entry := ⟨flags, .compound mask sid⟩

/-- An entry with a code that has no kind. -/
def ofCustom (code : UInt8) (flags : Flags) (extra : List UInt8) : Except Error Entry :=
  if code ≤ Kind.lastCode then
    .error (.outOfRange .customCode code.toNat Kind.lastCode.toNat)
  else do
    checkExtra maxCustomExtra extra
    return ⟨flags, .custom code extra⟩

/-! ### Parts of an entry -/

/-- The code of an entry. -/
def code (entry : Entry) : UInt8 := entry.body.code

/-- The kind of an entry; a custom entry has none. -/
def kind? (entry : Entry) : Option Kind := Kind.ofCode? entry.code

/-- The number of bytes of an entry. -/
def size (entry : Entry) : Nat := entry.body.size

/-- Whether the entry was inherited. -/
def isInherited (entry : Entry) : Bool := entry.flags.has .inherited

/-- Whether the entry is limited to object types, or could be. -/
def isObject (entry : Entry) : Bool :=
  match entry.body with
  | .object _ _ => true
  | _ => false

/-- Whether an object entry is limited to exactly these object types; other entries have
no answer. -/
def hasTypes? (entry : Entry) (objectType inheritedType : Option Guid) : Option Bool :=
  match entry.body with
  | .object _ target =>
      some (target.objectType == objectType && target.inheritedType == inheritedType)
  | _ => none

/-! ### Replacing a part -/

/-- The entry with other flags. -/
def withFlags (entry : Entry) (flags : Flags) : Entry := { entry with flags := flags }

/-- The entry with its rule changed, if its body states one. -/
def mapRule? (entry : Entry) (f : Rule → Rule) : Option Entry :=
  match entry.body with
  | .common rule => some { entry with body := .common (f rule) }
  | .object rule target => some { entry with body := .object (f rule) target }
  | .compound _ _ => none
  | .custom _ _ => none

/-- The entry with its object types changed, if its body has any. -/
def mapTarget? (entry : Entry) (f : Target → Target) : Option Entry :=
  match entry.body with
  | .object rule target => some { entry with body := .object rule (f target) }
  | _ => none

/-- The entry with another mask. -/
def withMask? (entry : Entry) (mask : Mask) : Option Entry :=
  entry.mapRule? fun rule => { rule with mask := mask }

/-- The entry with another identifier. -/
def withSid? (entry : Entry) (sid : Sid) : Option Entry :=
  entry.mapRule? fun rule => { rule with sid := sid }

/-- The entry with another object type. -/
def withObjectType? (entry : Entry) (guid : Option Guid) : Option Entry :=
  entry.mapTarget? fun target => { target with objectType := guid }

/-- The entry with another inherited object type. -/
def withInheritedType? (entry : Entry) (guid : Option Guid) : Option Entry :=
  entry.mapTarget? fun target => { target with inheritedType := guid }

/-- The entry with other extra bytes, if its body may carry some; bytes that do not fit
are refused. -/
def withExtra? (entry : Entry) (extra : List UInt8) : Option (Except Error Entry) :=
  match entry.body with
  | .common rule => some do
      checkExtra maxCommonExtra extra
      return { entry with body := .common { rule with extra := extra } }
  | .object rule target => some do
      checkExtra (objectExtraLimit rule.callback) extra
      return { entry with body := .object { rule with extra := extra } target }
  | .compound _ _ => none
  | .custom code _ => some do
      checkExtra maxCustomExtra extra
      return { entry with body := .custom code extra }

end Entry

end SecurityDescriptor
