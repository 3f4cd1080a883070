/-
The text form of access control lists: entries in parentheses, one after another.

An entry ends at the first closing parenthesis.  A text that is not a run of entries is blamed on
the first entry that is out of shape: the offset of the error is where that entry starts.

Main definitions:

* `AccessList.render` — the text of a list;
* `AccessList.splitEntries` — the texts between the parentheses;
* `AccessList.parse` — the reader of lists;
* `AccessList.text`, `AccessList.ofString` — the same for strings.
-/

import SecurityDescriptor.AccessList.Basic
import SecurityDescriptor.Entry.Text

set_option relaxedAutoImplicit false
set_option autoImplicit false

namespace SecurityDescriptor

namespace AccessList

/-! ### Writing -/

/-- The text of entries, each in parentheses.  The first entry without a text decides the error. -/
def renderEntries : List Entry → Except Error (List Char)
  | [] => .ok []
  | entry :: entries => do
      let text ← entry.render
      let rest ← renderEntries entries
      return '(' :: (text ++ ')' :: rest)

/-- The text of a list. -/
def render (list : AccessList) : Except Error (List Char) := renderEntries list.entries

/-! ### Cutting a text into entries -/

/-- How far a text has been cut into entries. -/
structure Cutting where
  /-- The texts of the entries that are complete, newest first. -/
  entries : List (List Char)
  /-- The offset at which the entry being read starts, or at which the next one has to start. -/
  start : Nat
  /-- What was read of an entry behind its opening parenthesis, newest first. -/
  inside : Option (List Char)
  deriving DecidableEq, Repr

namespace Cutting

/-- Nothing read yet. -/
def initial : Cutting := ⟨[], 0, none⟩

/-- Reads one more character. -/
def step (cutting : Cutting) (c : Char) : Except Error Cutting :=
  match cutting.inside with
  | none =>
      if c = '(' then .ok { cutting with inside := some [] }
      else .error (.list .entryNotOpened cutting.start)
  | some text =>
      if c = ')' then
        if text = [] ∨ '(' ∈ text then .error (.list .entryEmptyOrNested cutting.start)
        else .ok ⟨text.reverse :: cutting.entries, cutting.start + Text.width text + 2, none⟩
      else .ok { cutting with inside := some (c :: text) }

/-- The entries, if the text does not end within one. -/
def finish (cutting : Cutting) : Except Error (List (List Char)) :=
  match cutting.inside with
  | none => .ok cutting.entries.reverse
  | some _ => .error (.list .entryNotClosed cutting.start)

end Cutting

/-- The texts of the entries of a run, without their parentheses.  Each is non-empty and free of
parentheses. -/
def splitEntries (text : List Char) : Except Error (List (List Char)) := do
  let cutting ← text.foldlM Cutting.step Cutting.initial
  cutting.finish

/-! ### Reading -/

/-- The revision that lists of the given entries need. -/
def revisionFor (entries : List Entry) : UInt8 :=
  if entries.any Entry.isObject then directoryRevision else plainRevision

/-- Reads a list of at least one entry. -/
def parse (text : List Char) : Except Error AccessList := do
  let tokens ← splitEntries text
  if tokens = [] then
    .error (.list .emptyBody 0)
  else do
    let entries ← tokens.mapM Entry.parse
    ofEntries (revisionFor entries) entries

/-! ### Strings -/

/-- The text of a list as a string. -/
def text (list : AccessList) : Except Error String := list.render.map String.ofList

/-- Reads a list from a string. -/
def ofString (text : String) : Except Error AccessList := parse text.toList

end AccessList

end SecurityDescriptor
