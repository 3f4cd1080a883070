/-
Replacing the parts of an entry in place.

Whoever holds an entry replaces its parts where they stand.  Which parts there are depends on the
body.  Only the extra bytes are checked, and they are checked before they are stored; whatever else
is put in is taken as it is, and the limits of the extra bytes leave the room for it.

Main definitions:

* `Entry.InPlace`, `Entry.InPlace.run` — a program that works on an entry in place, and what comes
  of it;
* `Entry.InPlace.setFlags`, `Entry.InPlace.setMask`, `Entry.InPlace.setSid`,
  `Entry.InPlace.setObjectType`, `Entry.InPlace.setInheritedType` — replacing a part as it is;
* `Entry.InPlace.setExtra` — replacing the extra bytes if they pass the check.

Main results:

* `Entry.InPlace.run_offer` — a part is replaced where the body has it, and never refused;
* `Entry.InPlace.run_setExtra` — extra bytes that are refused leave the entry as it was.
-/

import SecurityDescriptor.Entry.Basic

set_option relaxedAutoImplicit false
set_option autoImplicit false

namespace SecurityDescriptor

namespace Entry

/-- A program that works on an entry in place.  It may fail, and what it has done to the entry by
then stays done. -/
abbrev InPlace (α : Type) : Type := ExceptT Error (StateM Entry) α

namespace InPlace

/-- What a program comes to on an entry, and the entry that it leaves behind. -/
def run {α : Type} (program : InPlace α) (entry : Entry) : Except Error α × Entry :=
  StateT.run (ExceptT.run program) entry

/-! ### Replacing a part

Each of these programs answers whether the body has the part that was to be replaced. -/

/-- Puts the changed entry in place, if there is one. -/
def offer : Option Entry → InPlace Bool
  | some changed => do
      set changed
      return true
  | none => return false

/-- Replaces the flags. -/
def setFlags (flags : Flags) : InPlace Bool := do
  let entry ← get
  offer (some (entry.withFlags flags))

/-- Replaces the mask. -/
def setMask (mask : Mask) : InPlace Bool := do
  let entry ← get
  offer (entry.withMask? mask)

/-- Replaces the identifier. -/
def setSid (sid : Sid) : InPlace Bool := do
  let entry ← get
  offer (entry.withSid? sid)

/-- Replaces the object type. -/
def setObjectType (guid : Option Guid) : InPlace Bool := do
  let entry ← get
  offer (entry.withObjectType? guid)

/-- Replaces the inherited object type. -/
def setInheritedType (guid : Option Guid) : InPlace Bool := do
  let entry ← get
  offer (entry.withInheritedType? guid)

/-- Checks the extra bytes first, and puts the changed entry in place only then. -/
def offerChecked (limit : Nat) (extra : List UInt8) (changed : Entry) : InPlace Bool := do
  checkExtra limit extra
  offer (some changed)

/-- Replaces the extra bytes, within the limit of the body at hand. -/
def setExtra (extra : List UInt8) : InPlace Bool := do
  let entry ← get
  match entry.body with
  | .common rule =>
      offerChecked maxCommonExtra extra { entry with body := .common { rule with extra := extra } }
  | .object rule target =>
      offerChecked (objectExtraLimit rule.callback) extra
        { entry with body := .object { rule with extra := extra } target }
  | .compound _ _ => offer none
  | .custom code _ =>
      offerChecked maxCustomExtra extra { entry with body := .custom code extra }

/-! ### What comes of it -/

/-- **A part is replaced where the body has it, and never refused.** -/
theorem run_offer (changed : Option Entry) (entry : Entry) :
    run (offer changed) entry = (.ok changed.isSome, changed.getD entry) := by
  cases changed <;> rfl

/-- **Extra bytes that do not pass the check leave the entry as it was.** -/
theorem run_offerChecked (limit : Nat) (extra : List UInt8) (changed entry : Entry) :
    run (offerChecked limit extra changed) entry =
      match checkExtra limit extra with
      | .ok _ => (.ok true, changed)
      | .error e => (.error e, entry) := by
  rw [offerChecked]
  cases checkExtra limit extra <;> rfl

/-- Replacing the extra bytes in place leaves the entry behind that has them, and the entry as it
was if they are refused. -/
theorem run_setExtra (extra : List UInt8) (entry : Entry) :
    run (setExtra extra) entry =
      match entry.withExtra? extra with
      | none => (.ok false, entry)
      | some (.ok changed) => (.ok true, changed)
      | some (.error e) => (.error e, entry) := by
  obtain ⟨flags, rule | ⟨rule, target⟩ | ⟨mask, sid⟩ | ⟨code, old⟩⟩ := entry
  · refine (run_offerChecked _ _ _ _).trans ?_
    dsimp only [withExtra?]
    cases checkExtra maxCommonExtra extra <;> rfl
  · refine (run_offerChecked _ _ _ _).trans ?_
    dsimp only [withExtra?]
    cases checkExtra (objectExtraLimit rule.callback) extra <;> rfl
  · rfl
  · refine (run_offerChecked _ _ _ _).trans ?_
    dsimp only [withExtra?]
    cases checkExtra maxCustomExtra extra <;> rfl

end InPlace

end Entry

end SecurityDescriptor
