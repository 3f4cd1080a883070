/-
The text form of security identifiers: `S-1-` followed by the authority and the sub-authorities.

The authority is written in decimal, or, if it does not fit in 32 bits, as twelve upper-case
hexadecimal digits after `0x`; either notation is read for any authority.  In place of the long form
an abbreviation may stand.  A text that is refused is blamed on its first bad component: the offset
of the error is where that component starts.

Main definitions:

* `Sid.render` — the text of an identifier;
* `Sid.parse` — its reader; `Sid.ofString` reads a string;
* `Sid.parseAuthority`, `Sid.parseSubAuthorities` — the readers of the numeric components.
-/

import SecurityDescriptor.Sid.Abbreviation
import SecurityDescriptor.Text.Numeral
import SecurityDescriptor.Text.Width

set_option relaxedAutoImplicit false
set_option autoImplicit false

namespace SecurityDescriptor

namespace Sid

/-! ### Writing -/

/-- The text of an authority. -/
def renderAuthority (authority : Nat) : List Char :=
  if authority < UInt32.size then Numeral.decimal authority
  else '0' :: 'x' :: (Numeral.fixedHex 12 authority).map Char.toUpper

/-- The text of an identifier. -/
def render (s : Sid) : List Char :=
  'S' :: '-' :: '1' :: '-' :: (renderAuthority s.authority ++
    s.subAuthorities.flatMap fun sub => '-' :: Numeral.decimal sub.toNat)

instance : ToString Sid where
  toString s := String.ofList s.render

/-! ### Reading -/

/-- The base in which an authority is written, and its digits. -/
def authorityDigits : List Char → Nat × List Char
  | '0' :: 'x' :: digits => (16, digits)
  | '0' :: 'X' :: digits => (16, digits)
  | digits => (10, digits)

/-- Reads the authority component that starts at offset `start`.  A numeral that does not fit in 64
bits counts as no number at all. -/
def parseAuthority (start : Nat) (component : List Char) : Except Error Nat :=
  let (base, digits) := authorityDigits component
  match Numeral.read? base (UInt64.size - 1) digits with
  | none => .error (.identifier .authorityNotNumber start)
  | some authority =>
      if authority ≤ maxAuthority then .ok authority
      else .error (.identifier .authorityTooLarge start)

/-- Reads the sub-authority components, the first of which starts at offset `start`, while there is
room for `room` more. -/
def parseSubAuthorities : Nat → Nat → List (List Char) → Except Error (List UInt32)
  | _, _, [] => .ok []
  | room, start, component :: components =>
      match Numeral.read? 10 (UInt32.size - 1) component with
      | none => .error (.identifier .subAuthorityNotNumber start)
      | some value =>
          match room with
          | 0 => .error (.identifier .tooManySubAuthorities start)
          | room + 1 => do
              let values ←
                parseSubAuthorities room (start + Text.width component + 1) components
              return UInt32.ofNat value :: values

/-- Reads the components of an identifier in a text of `width` bytes. -/
def parseComponents (width : Nat) : List (List Char) → Except Error Sid
  | lead :: components =>
      if lead = ['S'] ∨ lead = ['s'] then
        match components with
        | [] => .error (.identifier .missingComponent width)
        | revision :: components =>
            if revision ≠ ['1'] then
              .error (.identifier .revision 2)
            else
              match components with
              | [] => .error (.identifier .missingComponent width)
              | authority :: components => do
                  let value ← parseAuthority 4 authority
                  let values ←
                    parseSubAuthorities maxCount (4 + Text.width authority + 1) components
                  make value values
      else
        .error (.identifier .missingLead 0)
  | [] => .error (.identifier .missingLead 0)

/-- Reads the text of an identifier or an abbreviation of one. -/
def parse (text : List Char) : Except Error Sid :=
  match abbreviated? text with
  | some row => make row.authority row.subAuthorities
  | none =>
      if isDomainAbbreviation text then
        .error (.unsupportedForm .domainAbbreviation (String.ofList text))
      else
        parseComponents (Text.width text) (text.splitOn '-')

/-- Reads an identifier from a string. -/
def ofString (text : String) : Except Error Sid := parse text.toList

end Sid

end SecurityDescriptor
