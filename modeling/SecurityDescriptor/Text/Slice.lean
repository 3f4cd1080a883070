/-
Texts as slices of bytes.

A text takes up the bytes of its UTF-8 form, and a position in a text is a number of bytes.  Only
the ends of characters are positions at which a text can be cut: behind its last byte a text has no
position, and inside a character there is none either.  Looking for a character and asking what a
text begins with find positions, or no position, and never fail.

Main definitions:

* `Text.octets` — the bytes of a text;
* `Text.cut?` — the two parts of a text on either side of a position;
* `Text.find?` — the position of the first occurrence of a character;
* `Checked.cut`, `Checked.before`, `Checked.behind`, `Checked.within` — cuts that trap where the text
  has no such position.
-/

import SecurityDescriptor.Checked
import SecurityDescriptor.Text.Width

set_option relaxedAutoImplicit false
set_option autoImplicit false

namespace SecurityDescriptor

namespace Text

/-- The bytes of a text in UTF-8. -/
def octets (text : List Char) : List UInt8 := text.flatMap String.utf8EncodeChar

/-- The parts of a text before and behind a position. -/
def cut? : Nat → List Char → Option (List Char × List Char)
  | 0, text => some ([], text)
  | _ + 1, [] => none
  | n + 1, c :: text =>
      if c.utf8Size ≤ n + 1 then
        (cut? (n + 1 - c.utf8Size) text).map fun (front, rest) => (c :: front, rest)
      else none

/-- The position of the first `c`. -/
def find? (c : Char) (text : List Char) : Option Nat :=
  if c ∈ text then some (width (text.takeWhile (· != c))) else none

end Text

namespace Checked

/-- The parts of a text before and behind a position. -/
def cut (text : List Char) (position : Nat) : Checked (List Char × List Char) :=
  match Text.cut? position text with
  | some parts => pure parts
  | none => trap .outOfRange

/-- The text before a position. -/
def before (text : List Char) (stop : Nat) : Checked (List Char) := do
  return (← cut text stop).1

/-- The text from a position on. -/
def behind (text : List Char) (start : Nat) : Checked (List Char) := do
  return (← cut text start).2

/-- The text from one position to another. -/
def within (text : List Char) (start stop : Nat) : Checked (List Char) := do
  behind (← before text stop) start

end Checked

end SecurityDescriptor
