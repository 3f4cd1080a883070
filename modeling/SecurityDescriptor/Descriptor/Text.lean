/-
The text form of security descriptors.

The owner and group sections hold an identifier.  A list section holds marks for the inheritance of
the list and then its entries, or, for a list that is missing although it is marked as present, the
words `NO_ACCESS_CONTROL` and no entries.  Sections are read in any order and written in the order
owner, group, discretionary list, system list.  A list without entries is written as nothing behind
its marks, which no reader takes back.

Main definitions:

* `ListMark`, `ListSide` — what precedes the entries of a list, and which of the two lists it is;
* `Descriptor.ListSection`, `Descriptor.parseListSection` — the content of a list section;
* `Descriptor.render`, `Descriptor.parse` — the text of a descriptor and its reader;
* `Descriptor.text`, `Descriptor.ofString` — the same for strings.
-/

import SecurityDescriptor.AccessList.Text
import SecurityDescriptor.Descriptor.Basic
import SecurityDescriptor.Descriptor.Section

set_option relaxedAutoImplicit false
set_option autoImplicit false

namespace SecurityDescriptor

/-! ### Marks of a list section -/

/-- Which list a section is about. -/
inductive ListSide
  | discretionary
  | system
  deriving DecidableEq, Repr

/-- What may stand before the entries of a list. -/
inductive ListMark
  | shielded
  | autoInheritRequired
  | autoInherited
  | noAccessControl
  deriving DecidableEq, Repr

namespace ListSide

/-- The flag that says that the list is present. -/
def presence : ListSide → ControlFlag
  | discretionary => .daclPresent
  | system => .saclPresent

/-- The section of the list. -/
def name : ListSide → SectionName
  | discretionary => .dacl
  | system => .sacl

end ListSide

namespace ListMark

/-- The word for a list that is missing although it is marked as present. -/
def noAccessControlToken : String := "NO_ACCESS_CONTROL"

/-- The marks in the order in which they are written. -/
def tokens : Token.Table ListMark :=
  [ ("P", shielded),
    ("AR", autoInheritRequired),
    ("AI", autoInherited),
    (noAccessControlToken, noAccessControl) ]

/-- The control flag that a mark sets. -/
def flag? : ListSide → ListMark → Option ControlFlag
  | .discretionary, shielded => some .daclProtected
  | .discretionary, autoInheritRequired => some .daclAutoInheritRequired
  | .discretionary, autoInherited => some .daclAutoInherited
  | .system, shielded => some .saclProtected
  | .system, autoInheritRequired => some .saclAutoInheritRequired
  | .system, autoInherited => some .saclAutoInherited
  | _, noAccessControl => none

/-- The marks that a control word asks for. -/
def render (side : ListSide) (control : Control) : List Char :=
  tokens.flatMap fun row =>
    match row.2.flag? side with
    | some flag => if control.has flag then row.1.toList else []
    | none => []

/-- The control word that marks ask for. -/
def control (side : ListSide) (marks : List ListMark) : Control :=
  Control.ofList (marks.filterMap (flag? side))

end ListMark

namespace Descriptor

/-! ### Writing -/

/-- The text of a list section.  A list that is missing is written only if it is present as a null
list or if there are marks to write. -/
def renderList (side : ListSide) (control : Control) (list : Option AccessList) (present : Bool) :
    Except Error (List Char) :=
  let marks := ListMark.render side control
  let lead := side.name.letter :: ':' :: marks
  match list with
  | some list => do
      let entries ← list.render
      return lead ++ entries
  | none =>
      if present || !marks.isEmpty then .ok (lead ++ ListMark.noAccessControlToken.toList)
      else .ok []

/-- The text of the owner or group section. -/
def renderPrincipal (name : SectionName) (sid : Option Sid) : List Char :=
  match sid with
  | some sid => name.letter :: ':' :: sid.render
  | none => []

/-- The text of one section of a descriptor; a section without content is left out. -/
def renderSection (d : Descriptor) : SectionName → Except Error (List Char)
  | .owner => .ok (renderPrincipal .owner d.owner)
  | .group => .ok (renderPrincipal .group d.group)
  | .dacl =>
      renderList .discretionary d.control d.dacl.stored?
        (d.dacl.isSynthetic || d.control.has .daclPresent)
  | .sacl => renderList .system d.control d.sacl (d.control.has .saclPresent)

/-- The text of the selected ones among the given sections. -/
def renderSections (d : Descriptor) (selection : Selection) :
    List SectionName → Except Error (List Char)
  | [] => .ok []
  | name :: names => do
      let text ← if selection.has name then d.renderSection name else .ok []
      let rest ← renderSections d selection names
      return text ++ rest

/-- The text of a descriptor, limited to the selected sections. -/
def render (d : Descriptor) (selection : Selection) : Except Error (List Char) :=
  d.renderSections selection SectionName.all

/-! ### Reading -/

/-- Reads the content of an owner or group section. -/
def parsePrincipal (content : List Char) : Except Error Sid :=
  if content = [] then .error (.descriptor .emptyPrincipal 0) else Sid.parse content

/-- What a list section says: control flags, and the list unless it is a null list. -/
structure ListSection where
  control : Control
  list : Option AccessList
  deriving DecidableEq, Repr

/-- Reads the content of a list section.  The marks reach up to the first parenthesis. -/
def parseListSection (side : ListSide) (content : List Char) : Except Error ListSection :=
  let marks := content.takeWhile (· != '(')
  let body := content.dropWhile (· != '(')
  match Token.run? ListMark.tokens marks with
  | none => .error (.descriptor .unknownListMark 0)
  | some tokens =>
      let control := (ListMark.control side tokens).put side.presence true
      if tokens.contains .noAccessControl then
        if body = [] then .ok ⟨control, none⟩
        else .error (.descriptor .nullListWithEntries (Text.width marks))
      else if body = [] then
        .error (.descriptor .listMissing (Text.width marks))
      else do
        let list ← AccessList.parse body
        return ⟨control, some list⟩

/-- Reads a section that may be missing. -/
def parseSection {α : Type} (parse : List Char → Except Error α) :
    Option (List Char) → Except Error (Option α)
  | none => .ok none
  | some content => do
      let value ← parse content
      return some value

/-- The control flags of a list section that may be missing. -/
def sectionControl : Option ListSection → Control
  | none => .none
  | some parsed => parsed.control

/-- Reads a descriptor. -/
def parse (text : List Char) : Except Error Descriptor := do
  let sections ← Sections.ofText text
  let owner ← parseSection parsePrincipal sections.owner
  let group ← parseSection parsePrincipal sections.group
  let dacl ← parseSection (parseListSection .discretionary) sections.dacl
  let sacl ← parseSection (parseListSection .system) sections.sacl
  return settle
    { control := (sectionControl dacl).union (sectionControl sacl)
      owner := owner
      group := group
      sacl := sacl.bind ListSection.list
      dacl := .ofOption (dacl.bind ListSection.list)
      resourceManager := none }

/-! ### Strings -/

/-- The text of a descriptor as a string, limited to the selected sections. -/
def text (d : Descriptor) (selection : Selection) : Except Error String :=
  (d.render selection).map String.ofList

/-- Reads a descriptor from a string. -/
def ofString (text : String) : Except Error Descriptor := parse text.toList

end Descriptor

end SecurityDescriptor
