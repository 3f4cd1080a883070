/-
Access masks and their text.

A mask is written as a hexadecimal number.  It is read from four notations: nothing at all, a number
after `0x`, a run of right tokens, or a number without `0x`.  Where a text is both a run of tokens
and a number, the tokens win.

Main definitions:

* `Mask.rights` — the right tokens and the bits that each stands for;
* `Mask.render`, `Mask.parse` — the text of a mask and its reader.
-/

import SecurityDescriptor.Error
import SecurityDescriptor.Text.Numeral
import SecurityDescriptor.Text.Token

set_option relaxedAutoImplicit false
set_option autoImplicit false

namespace SecurityDescriptor

/-- The set of rights that an entry is about. -/
abbrev Mask := UInt32

namespace Mask

/-- The tokens of rights: generic, standard, directory, file, registry and label rights. -/
def rights : Token.Table Mask :=
  [ ("GA", 0x10000000),
    ("GR", 0x80000000),
    ("GW", 0x40000000),
    ("GX", 0x20000000),
    ("RC", 0x00020000),
    ("SD", 0x00010000),
    ("WD", 0x00040000),
    ("WO", 0x00080000),
    ("RP", 0x00000010),
    ("WP", 0x00000020),
    ("CC", 0x00000001),
    ("DC", 0x00000002),
    ("LC", 0x00000004),
    ("SW", 0x00000008),
    ("LO", 0x00000080),
    ("DT", 0x00000040),
    ("CR", 0x00000100),
    ("FA", 0x001F01FF),
    ("FR", 0x00120089),
    ("FW", 0x00120116),
    ("FX", 0x001200A0),
    ("KA", 0x000F003F),
    ("KR", 0x00020019),
    ("KW", 0x00020006),
    ("KX", 0x00020019),
    ("NW", 0x00000001),
    ("NR", 0x00000002),
    ("NX", 0x00000004) ]

/-- The text of a mask. -/
def render (mask : Mask) : List Char := '0' :: 'x' :: Numeral.hex mask.toNat

/-- The mask with the bits of all `masks`. -/
def union (masks : List Mask) : Mask := masks.foldl (· ||| ·) 0

/-- Reads a hexadecimal number of at most 32 bits.  A plus sign may stand before it. -/
def parseHex? (text : List Char) : Option Mask :=
  let digits := match text with
    | '+' :: digits => digits
    | digits => digits
  (Numeral.read? 16 (UInt32.size - 1) digits).map UInt32.ofNat

/-- The digits behind `0x`, if the text begins so. -/
def hexDigits? : List Char → Option (List Char)
  | '0' :: 'x' :: digits => some digits
  | '0' :: 'X' :: digits => some digits
  | _ => none

/-- Reads a mask in any of the four notations. -/
def parse (text : List Char) : Except Error Mask :=
  if text = [] then
    .ok 0
  else
    match hexDigits? text with
    | some digits =>
        match parseHex? digits with
        | some mask => .ok mask
        | none => .error (.entry .maskNotHex 0)
    | none =>
        match Token.run? rights text with
        | some masks => .ok (union masks)
        | none =>
            match parseHex? text with
            | some mask => .ok mask
            | none => .error (.entry .maskUnrecognised 0)

end Mask

end SecurityDescriptor
