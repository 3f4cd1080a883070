/-
Edits of a list in place.

Whoever holds a list edits it where it stands, and a program that fails leaves behind what it has
done by then.  So what a refused edit leaves behind is a matter of the order of its steps: the index
is checked first, then the ceiling, and the entries are touched last.

Main definitions:

* `AccessList.InPlace`, `AccessList.InPlace.run` — a program that works on a list in place, and
  what comes of it;
* `AccessList.InPlace.insert`, `AccessList.InPlace.push`, `AccessList.InPlace.remove`,
  `AccessList.InPlace.replace` — the edits; the last two hand out the entry that was there.

Main results:

* `AccessList.InPlace.run_insert`, `AccessList.InPlace.run_remove`,
  `AccessList.InPlace.run_replace` — **an edit in place leaves the list behind that the edit
  computes, and the list as it was if it is refused**.
-/

import SecurityDescriptor.AccessList.Basic

set_option relaxedAutoImplicit false
set_option autoImplicit false

namespace SecurityDescriptor

namespace AccessList

/-- A program that works on a list in place.  It may fail, and what it has done to the list by then
stays done. -/
abbrev InPlace (α : Type) : Type := ExceptT Error (StateM AccessList) α

namespace InPlace

/-- What a program comes to on a list, and the list that it leaves behind. -/
def run {α : Type} (program : InPlace α) (list : AccessList) : Except Error α × AccessList :=
  StateT.run (ExceptT.run program) list

/-! ### Edits -/

/-- Puts an entry before the one at `index`, or at the end. -/
def insert (index : Nat) (entry : Entry) : InPlace Unit := do
  let list ← get
  if list.count < index then
    throw (indexError index (list.count + 1))
  checkSize (list.size + entry.size)
  set { list with entries := list.entries.insertIdx index entry }

/-- Puts an entry at the end. -/
def push (entry : Entry) : InPlace Unit := do
  let list ← get
  insert list.count entry

/-- Takes the entry at `index` out. -/
def remove (index : Nat) : InPlace Entry := do
  let list ← get
  match list.get? index with
  | none => throw (indexError index list.count)
  | some old =>
      set { list with entries := list.entries.eraseIdx index }
      return old

/-- Puts an entry in the place of the one at `index`. -/
def replace (index : Nat) (entry : Entry) : InPlace Entry := do
  let list ← get
  match list.get? index with
  | none => throw (indexError index list.count)
  | some old =>
      checkSize (list.size - old.size + entry.size)
      set { list with entries := list.entries.set index entry }
      return old

/-! ### What comes of an edit -/

variable {α β : Type}

theorem run_get_bind (next : AccessList → InPlace α) (list : AccessList) :
    run (get >>= next) list = run (next list) list := rfl

/-- A check that fails ends the program and leaves the list as it is. -/
theorem run_check_bind {check : Except Error β} {next : β → InPlace α} (list : AccessList) :
    run (liftM check >>= next) list =
      match check with
      | .ok b => run (next b) list
      | .error e => (.error e, list) := by
  cases check <;> rfl

/-- **Inserting in place** leaves the list as it was unless all checks pass. -/
theorem run_insert (index : Nat) (entry : Entry) (list : AccessList) :
    run (insert index entry) list =
      match list.insert index entry with
      | .ok changed => (.ok (), changed)
      | .error e => (.error e, list) := by
  rw [insert, run_get_bind, AccessList.insert]
  split
  · rfl
  · rw [run_check_bind]
    cases checkSize (list.size + entry.size) <;> rfl

theorem run_push (entry : Entry) (list : AccessList) :
    run (push entry) list = run (insert list.count entry) list := by
  rw [push, run_get_bind]

/-- **Removing in place** hands out the entry that was there. -/
theorem run_remove (index : Nat) (list : AccessList) :
    run (remove index) list =
      match list.remove index with
      | .ok (old, changed) => (.ok old, changed)
      | .error e => (.error e, list) := by
  rw [remove, run_get_bind, AccessList.remove]
  cases list.get? index <;> rfl

/-- **Replacing in place** hands out the entry that was there, and leaves the list as it was unless
all checks pass. -/
theorem run_replace (index : Nat) (entry : Entry) (list : AccessList) :
    run (replace index entry) list =
      match list.replace index entry with
      | .ok (old, changed) => (.ok old, changed)
      | .error e => (.error e, list) := by
  rw [replace, run_get_bind, AccessList.replace]
  cases list.get? index with
  | none => rfl
  | some old =>
      dsimp only
      rw [run_check_bind]
      cases checkSize (list.size - old.size + entry.size) <;> rfl

end InPlace

end AccessList

end SecurityDescriptor
