/-
The sections of a descriptor text.

A section starts with a letter and a colon; what follows, up to the next section, is its content.  A
colon within parentheses belongs to the content.  The text is read once from left to right, and only
after the whole of it has been read are the sections matched with the components they are for.

Main definitions:

* `SectionName` — the four components of a descriptor text;
* `Selection` — which sections to write;
* `Sectioning`, `Sectioning.step` — how far a text has been cut, and one more character;
* `Sections`, `Sections.ofText` — the contents of the sections of a text.
-/

import SecurityDescriptor.Error
import SecurityDescriptor.Text.Width

set_option relaxedAutoImplicit false
set_option autoImplicit false

namespace SecurityDescriptor

/-- A component of a descriptor text. -/
inductive SectionName
  | owner
  | group
  | dacl
  | sacl
  deriving DecidableEq, Repr

namespace SectionName

/-- The letter with which a section starts. -/
def letter : SectionName → Char
  | owner => 'O'
  | group => 'G'
  | dacl => 'D'
  | sacl => 'S'

/-- The names in the order in which sections are written. -/
def all : List SectionName := [owner, group, dacl, sacl]

/-- The section that starts with a letter. -/
def ofLetter? (c : Char) : Option SectionName := all.find? fun name => name.letter == c

/-- The position of a section in a selection. -/
def bit : SectionName → Nat
  | sacl => 0
  | dacl => 1
  | owner => 2
  | group => 3

end SectionName

/-- Which sections to write.  Bits that belong to no section mean nothing. -/
structure Selection where
  bits : BitVec 8
  deriving DecidableEq, Repr

namespace Selection

/-- Whether a section is selected. -/
def has (selection : Selection) (name : SectionName) : Bool := selection.bits.getLsbD name.bit

/-- All four sections. -/
def all : Selection := ⟨0x0F⟩

theorem has_all (name : SectionName) : all.has name = true := by cases name <;> rfl

end Selection

/-! ### Cutting a text into sections -/

/-- A section as it is found: its letter, the offset of the letter, and its content, last character
first. -/
structure RawSection where
  letter : Char
  start : Nat
  content : List Char
  deriving DecidableEq, Repr

/-- How far a text has been cut into sections. -/
structure Sectioning where
  /-- The number of parentheses that are open. -/
  depth : Nat
  /-- The number of bytes read. -/
  position : Nat
  /-- What was read before the first section, last character first. -/
  lead : List Char
  /-- The sections found, last section first. -/
  sections : List RawSection
  deriving DecidableEq, Repr

namespace Sectioning

/-- Nothing read yet. -/
def initial : Sectioning := ⟨0, 0, [], []⟩

/-- What was read of the current section, or before the first one, last character first. -/
def current (s : Sectioning) : List Char :=
  match s.sections with
  | [] => s.lead
  | raw :: _ => raw.content

/-- Replaces what was read of the current section. -/
def withCurrent (s : Sectioning) (text : List Char) : Sectioning :=
  match s.sections with
  | [] => { s with lead := text }
  | raw :: sections => { s with sections := { raw with content := text } :: sections }

/-- Adds a character to the current section. -/
def push (s : Sectioning) (c : Char) : Sectioning :=
  { s.withCurrent (c :: s.current) with position := s.position + c.utf8Size }

/-- Reads a colon outside parentheses: the letter before it starts a new section. -/
def mark (s : Sectioning) : Except Error Sectioning :=
  match s.current with
  | [] => .error (.descriptor .markWithoutLetter s.position)
  | letter :: before =>
      if letter.isAlpha then
        let cut := s.withCurrent before
        .ok { cut with
          position := s.position + 1
          sections := ⟨letter, s.position - 1, []⟩ :: cut.sections }
      else
        .error (.descriptor .markWithoutLetter s.position)

/-- Reads one more character. -/
def step (s : Sectioning) (c : Char) : Except Error Sectioning :=
  if c = '(' then
    .ok { s.push c with depth := s.depth + 1 }
  else if c = ')' then
    match s.depth with
    | 0 => .error (.descriptor .unbalanced s.position)
    | depth + 1 => .ok { s.push c with depth := depth }
  else if c = ':' ∧ s.depth = 0 then
    s.mark
  else
    .ok (s.push c)

/-- The sections in order, if all parentheses are closed and nothing precedes the first section. -/
def finish (s : Sectioning) : Except Error (List RawSection) :=
  if s.depth ≠ 0 then .error (.descriptor .unbalanced s.position)
  else if s.lead ≠ [] then .error (.descriptor .noLeadingMark 0)
  else .ok s.sections.reverse

end Sectioning

/-! ### Matching sections with components -/

/-- The contents of the sections of a text; a missing section has none. -/
structure Sections where
  owner : Option (List Char)
  group : Option (List Char)
  dacl : Option (List Char)
  sacl : Option (List Char)
  deriving DecidableEq, Repr

namespace Sections

/-- No section. -/
def none : Sections := ⟨.none, .none, .none, .none⟩

/-- The content of a section. -/
def get (sections : Sections) : SectionName → Option (List Char)
  | .owner => sections.owner
  | .group => sections.group
  | .dacl => sections.dacl
  | .sacl => sections.sacl

/-- The sections with the content of one of them given. -/
def put (sections : Sections) (content : List Char) : SectionName → Sections
  | .owner => { sections with owner := some content }
  | .group => { sections with group := some content }
  | .dacl => { sections with dacl := some content }
  | .sacl => { sections with sacl := some content }

@[simp] theorem get_put (sections : Sections) (content : List Char) (name other : SectionName) :
    (sections.put content name).get other
      = if name = other then some content else sections.get other := by
  cases name <;> cases other <;> rfl

/-- Adds a section as it was found. -/
def add (sections : Sections) (raw : RawSection) : Except Error Sections :=
  match SectionName.ofLetter? raw.letter with
  | .none => .error (.descriptor .unknownMark raw.start)
  | some name =>
      if (sections.get name).isSome then .error (.descriptor .repeatedSection raw.start)
      else .ok (sections.put raw.content.reverse name)

/-- The contents of the sections of a text. -/
def ofText (text : List Char) : Except Error Sections := do
  let sectioning ← text.foldlM Sectioning.step Sectioning.initial
  let raws ← sectioning.finish
  raws.foldlM add none

end Sections

end SecurityDescriptor
