/-
**Replacing the parts of an entry in place, along whole runs.**

An entry carries its own size in a field of 16 bits.  An identifier is replaced by a longer one and
object types are added without a check, so nothing stops an entry from growing except what was
checked before: the extra bytes.  Their limit leaves the room for the longest identifier and both
object types, whether these are there yet or not, and it binds every way in which an entry can be
had.  That is why the bounds are an invariant of one edit, in whatever order the parts grow, and
hence of every run.

Main definitions:

* `Entry.Parts`, `Entry.parts` — what can be asked of an entry;
* `Entry.Edit.isOffered`, `Entry.Edit.check`, `Entry.Edit.change` — which edits a body offers, what
  they check, and what they mean for the parts;
* `Entry.Edit.perform`, `Entry.run` — an edit in place, and the entry behind a run of them;
* `Entry.Bounded` — **the bounds of an entry**;
* `Entry.Guarded` — **what the setters check and what they leave alone**;
* `Entry.Origin` — where a run starts.

Main results:

* `Entry.Edit.perform_of_isOffered` — an edit does what it means if its check passes, and nothing
  otherwise;
* `Entry.Reachable.bounded`, `Entry.Reachable.guarded` — every entry that can be had is within the
  bounds, and whatever edit comes next keeps it there;
* `Entry.Origin.guarded_run` — **both hold along every run of edits**.
-/

import SecurityDescriptor.Entry.InPlace
import SecurityDescriptor.Proofs.Entry.Reachable
import SecurityDescriptor.Proofs.Entry.Spelling

set_option relaxedAutoImplicit false
set_option autoImplicit false

namespace SecurityDescriptor

namespace Entry

/-! ### What an edit means -/

/-- **What can be asked of an entry.** -/
structure Parts where
  code : UInt8
  flags : Flags
  mask : Option Mask
  sid : Option Sid
  target : Option Target
  extra : List UInt8
  deriving DecidableEq, Repr

/-- The parts of an entry. -/
def parts (entry : Entry) : Parts :=
  { code := entry.code
    flags := entry.flags
    mask := entry.body.mask?
    sid := entry.body.sid?
    target := match entry.body with
      | .object _ target => some target
      | _ => none
    extra := entry.body.extra }

namespace Edit

/-- Whether a body has the part that an edit replaces.  A compound entry only has its flags
replaced. -/
def isOffered : Body → Edit → Bool
  | _, .flags _ => true
  | .common _, .mask _ | .common _, .sid _ | .common _, .extra _ => true
  | .object _ _, _ => true
  | .custom _ _, .extra _ => true
  | _, _ => false

/-- What an edit of an entry with the given body checks: the extra bytes, and nothing else. -/
def check (body : Body) : Edit → Except Error Unit
  | .extra bytes => checkExtra body.extraLimit bytes
  | _ => .ok ()

/-- **What an edit means**: one part is replaced and all others stay. -/
def change (parts : Parts) : Edit → Parts
  | .flags value => { parts with flags := value }
  | .mask value => { parts with mask := some value }
  | .sid value => { parts with sid := some value }
  | .extra bytes => { parts with extra := bytes }
  | .objectType guid =>
      { parts with target := parts.target.map ({ · with objectType := guid }) }
  | .inheritedType guid =>
      { parts with target := parts.target.map ({ · with inheritedType := guid }) }

/-! ### Edits in place -/

/-- The program of an edit, which answers whether the body has the part. -/
def program : Edit → InPlace Bool
  | .flags value => InPlace.setFlags value
  | .mask value => InPlace.setMask value
  | .sid value => InPlace.setSid value
  | .extra bytes => InPlace.setExtra bytes
  | .objectType guid => InPlace.setObjectType guid
  | .inheritedType guid => InPlace.setInheritedType guid

/-- What an edit in place comes to, and the entry that it leaves behind. -/
def perform (edit : Edit) (entry : Entry) : Except Error Bool × Entry := edit.program.run entry

variable {edit : Edit} {entry : Entry}

/-- Replacing the extra bytes asks only whether they pass the check of the body. -/
theorem exists_withExtra? {bytes : List UInt8}
    (h : (Edit.extra bytes).isOffered entry.body = true) :
    ∃ changed : Entry,
      entry.withExtra? bytes
          = some ((checkExtra entry.body.extraLimit bytes).map fun _ => changed) ∧
        changed.parts = (Edit.extra bytes).change entry.parts := by
  obtain ⟨flags, rule | ⟨rule, target⟩ | ⟨mask, sid⟩ | ⟨code, old⟩⟩ := entry
  · refine ⟨⟨flags, .common { rule with extra := bytes }⟩, ?_, rfl⟩
    dsimp only [withExtra?, Body.extraLimit]
    cases checkExtra maxCommonExtra bytes <;> rfl
  · refine ⟨⟨flags, .object { rule with extra := bytes } target⟩, ?_, rfl⟩
    dsimp only [withExtra?, Body.extraLimit]
    cases checkExtra (objectExtraLimit rule.callback) bytes <;> rfl
  · cases h
  · refine ⟨⟨flags, .custom code bytes⟩, ?_, rfl⟩
    dsimp only [withExtra?, Body.extraLimit]
    cases checkExtra maxCustomExtra bytes <;> rfl

/-- **An edit that the body offers does what it means if its check passes**, and leaves the entry as
it was if the check fails. -/
theorem perform_of_isOffered (h : edit.isOffered entry.body = true) :
    ∃ after : Entry, after.parts = edit.change entry.parts ∧
      edit.perform entry =
        match edit.check entry.body with
        | .ok _ => (.ok true, after)
        | .error e => (.error e, entry) := by
  cases edit with
  | extra bytes =>
      obtain ⟨after, hafter, hparts⟩ := exists_withExtra? h
      refine ⟨after, hparts, ?_⟩
      rw [perform, program, InPlace.run_setExtra, hafter, check]
      cases checkExtra entry.body.extraLimit bytes <;> rfl
  | flags | mask | sid | objectType | inheritedType =>
      -- A body without the part does not offer the edit.
      obtain ⟨flags, body⟩ := entry
      cases body <;> first | exact ⟨_, rfl, rfl⟩ | cases h

/-- An edit that the body does not offer does nothing. -/
theorem perform_of_not_isOffered (h : edit.isOffered entry.body = false) :
    edit.perform entry = (.ok false, entry) := by
  obtain ⟨flags, body⟩ := entry
  cases edit <;> cases body <;> first | rfl | cases h

/-- The entry that an edit in place leaves behind is the one behind the edit. -/
theorem perform_snd (edit : Edit) (entry : Entry) :
    (edit.perform entry).2 = edit.apply entry := by
  cases edit with
  | extra bytes =>
      rw [perform, program, InPlace.run_setExtra, apply]
      rcases entry.withExtra? bytes with _ | _ | _ <;> rfl
  | flags => rfl
  | mask value => exact congrArg Prod.snd (InPlace.run_offer (entry.withMask? value) entry)
  | sid value => exact congrArg Prod.snd (InPlace.run_offer (entry.withSid? value) entry)
  | objectType guid =>
      exact congrArg Prod.snd (InPlace.run_offer (entry.withObjectType? guid) entry)
  | inheritedType guid =>
      exact congrArg Prod.snd (InPlace.run_offer (entry.withInheritedType? guid) entry)

end Edit

/-! ### The bounds of an entry -/

/-- **The bounds of an entry.** -/
structure Bounded (entry : Entry) : Prop where
  extra_aligned : entry.body.extra.length % 4 = 0
  extra_le : entry.body.extra.length ≤ entry.body.extraLimit
  /-- Without a callback an object entry has no extra bytes. -/
  plain : entry.body.isPlainObject = true → entry.body.extra = []
  aligned : entry.size % 4 = 0
  size_le : entry.size ≤ 65532
  length_encode : entry.encode.length = entry.size
  /-- The size in the header is not cut off when the entry is written. -/
  header : ∀ rest : List UInt8,
    Header.decode? (entry.encode ++ rest) = some ⟨entry.code, entry.flags, entry.size⟩

/-- **A well-formed entry is within the bounds.** -/
theorem bounded_of_wellFormed {entry : Entry} (h : entry.body.WellFormed) : entry.Bounded := by
  have haligned := size_mod_of_wellFormed h
  -- The last multiple of four that the size field can hold.
  have hle : entry.size ≤ 65532 := by
    have hmax : entry.size ≤ 65535 := h.size_le
    omega
  exact ⟨h.aligned, h.bounded, h.extra_of_isPlainObject, haligned, hle, Entry.length_encode entry,
    Header.decode?_encode_append h⟩

/-- **Every entry that can be had is within the bounds.** -/
theorem Reachable.bounded {entry : Entry} (h : entry.Reachable) : entry.Bounded :=
  bounded_of_wellFormed h.wellFormed

/-! ### What the setters check -/

/-- The edit does what it means, and the entry is within the bounds afterwards. -/
def Edit.Succeeds (edit : Edit) (entry : Entry) : Prop :=
  ∃ after : Entry, edit.perform entry = (.ok true, after) ∧
    after.parts = edit.change entry.parts ∧ after.Bounded

/-- **What the setters check and what they leave alone.** -/
structure Guarded (entry : Entry) : Prop where
  /-- Extra bytes that fit are taken. -/
  fitting : ∀ bytes, (Edit.extra bytes).isOffered entry.body = true →
    bytes.length ≤ entry.body.extraLimit → bytes.length % 4 = 0 → (Edit.extra bytes).Succeeds entry
  /-- Too many of them are out of range, and the entry is as it was. -/
  tooLong : ∀ bytes, (Edit.extra bytes).isOffered entry.body = true →
    entry.body.extraLimit < bytes.length →
      (Edit.extra bytes).perform entry
        = (.error (.outOfRange .extraLength bytes.length entry.body.extraLimit), entry)
  /-- So is a number of them that is not a multiple of four. -/
  misaligned : ∀ bytes, (Edit.extra bytes).isOffered entry.body = true →
    bytes.length ≤ entry.body.extraLimit → bytes.length % 4 ≠ 0 →
      (Edit.extra bytes).perform entry
        = (.error (.outOfRange .extraAlignment bytes.length entry.body.extraLimit), entry)
  /-- No other edit is refused, and none of them leads out of the bounds. -/
  unchecked : ∀ edit : Edit, edit.isOffered entry.body = true → (∀ bytes, edit ≠ .extra bytes) →
    edit.Succeeds entry
  /-- An edit of a part that the body does not have does nothing. -/
  missing : ∀ edit : Edit, edit.isOffered entry.body = false →
    edit.perform entry = (.ok false, entry)

/-- **An edit of an entry that can be had keeps it within the bounds** once its check passes. -/
theorem Reachable.succeeds {entry : Entry} (h : entry.Reachable) {edit : Edit}
    (hoffered : edit.isOffered entry.body = true) (hcheck : edit.check entry.body = .ok ()) :
    edit.Succeeds entry := by
  obtain ⟨after, hparts, hperform⟩ := Edit.perform_of_isOffered hoffered
  rw [hcheck] at hperform
  have hafter : after = edit.apply entry := by rw [← Edit.perform_snd, hperform]
  exact ⟨after, hperform, hparts, hafter ▸ (h.edited edit).bounded⟩

/-- Extra bytes that do not pass the check are not stored. -/
theorem Edit.perform_extra_of_error {entry : Entry} {bytes : List UInt8} {e : Error}
    (hoffered : (Edit.extra bytes).isOffered entry.body = true)
    (hcheck : checkExtra entry.body.extraLimit bytes = .error e) :
    (Edit.extra bytes).perform entry = (.error e, entry) := by
  obtain ⟨after, -, hperform⟩ := Edit.perform_of_isOffered hoffered
  rwa [check, hcheck] at hperform

theorem Reachable.guarded {entry : Entry} (h : entry.Reachable) : entry.Guarded where
  fitting _ hoffered hle haligned := h.succeeds hoffered (checkExtra_eq_ok_iff.mpr ⟨hle, haligned⟩)
  tooLong _ hoffered hlong := Edit.perform_extra_of_error hoffered (if_pos hlong)
  misaligned bytes hoffered hle hodd := by
    have hcheck : checkExtra entry.body.extraLimit bytes
        = .error (.outOfRange .extraAlignment bytes.length entry.body.extraLimit) := by
      rw [checkExtra, if_neg (Nat.not_lt.mpr hle), if_pos hodd]
    exact Edit.perform_extra_of_error hoffered hcheck
  unchecked edit hoffered hunchecked := by
    refine h.succeeds hoffered ?_
    cases edit with
    | extra bytes => exact absurd rfl (hunchecked bytes)
    | flags | mask | sid | objectType | inheritedType => rfl
  missing _ := Edit.perform_of_not_isOffered

/-! ### Runs -/

/-- **Where a run of edits starts**: an entry from its parts, and those that were read. -/
inductive Origin : Entry → Prop
  | common {flags : Flags} {rule : Rule} {entry : Entry} (h : ofCommon flags rule = .ok entry) :
      Origin entry
  | object {flags : Flags} {rule : Rule} {objectType inheritedType : Option Guid} {entry : Entry}
      (h : ofObject flags rule objectType inheritedType = .ok entry) : Origin entry
  | compound (flags : Flags) (mask : Mask) (sid : Sid) : Origin (ofCompound flags mask sid)
  | custom {code : UInt8} {flags : Flags} {extra : List UInt8} {entry : Entry}
      (h : ofCustom code flags extra = .ok entry) : Origin entry
  | decoded {bytes : List UInt8} {offset : Nat} {entry : Entry}
      (h : decodeAt bytes offset = .ok entry) : Origin entry
  | parsed {text : List Char} {entry : Entry} (h : parse text = .ok entry) : Origin entry

theorem Origin.reachable {entry : Entry} (h : Origin entry) : entry.Reachable := by
  cases h with
  | common h => exact .common h
  | object h => exact .object h
  | compound flags mask sid => exact .compound flags mask sid
  | custom h => exact .custom h
  | decoded h => exact .decoded h
  | parsed h => exact .parsed h

/-- The entry behind a run of edits in place, refused or not. -/
def run (entry : Entry) (edits : List Edit) : Entry :=
  edits.foldl (fun entry edit => (edit.perform entry).2) entry

/-- **A run of edits makes an entry that can be had out of one.** -/
theorem Reachable.run {entry : Entry} (h : entry.Reachable) (edits : List Edit) :
    (entry.run edits).Reachable := by
  induction edits generalizing entry with
  | nil => exact h
  | cons edit edits ih =>
      have hnext : (edit.perform entry).2.Reachable := by
        rw [Edit.perform_snd]
        exact h.edited edit
      exact ih hnext

/-- **Along every run of edits an entry is within its bounds**, and whatever edit comes next is
refused for its extra bytes or keeps it there. -/
theorem Origin.guarded_run {entry : Entry} (h : Origin entry) (edits : List Edit) :
    (entry.run edits).Bounded ∧ (entry.run edits).Guarded := by
  have hreachable := h.reachable.run edits
  exact ⟨hreachable.bounded, hreachable.guarded⟩

/-- A rule of callback form with as many extra bytes as an object entry may carry, and an identifier
that is as short as possible. -/
def fullRule : Rule :=
  { qualifier := .allow
    callback := true
    mask := 0
    sid := ⟨0, [], Nat.zero_le _, Nat.zero_le _⟩
    extra := List.replicate 65420 7 }

/-- An object entry without object types. -/
def unlimited (rule : Rule) : Entry := ⟨.none, .object rule ⟨none, none, 0⟩⟩

/-- An object entry that has all the extra bytes it may have. -/
def full : Entry := unlimited fullRule

/-- The longest identifier there is. -/
def longestSid : Sid :=
  ⟨0, List.replicate Sid.maxCount 21, Nat.zero_le _, Nat.le_refl Sid.maxCount⟩

/-- Everything that can grow without a check grows. -/
def growth : List Edit :=
  [.inheritedType (some .null), .sid longestSid, .objectType (some .null)]

theorem length_extra_fullRule : fullRule.extra.length = 65420 := List.length_replicate

theorem origin_full : Origin full := by
  have hcheck : checkExtra (objectExtraLimit fullRule.callback) fullRule.extra = .ok () :=
    checkExtra_eq_ok_iff.mpr (by rw [length_extra_fullRule]; decide)
  have hmade : Entry.ofObject .none fullRule none none = .ok full := by
    rw [ofObject, hcheck, Outcome.ok_bind]
    rfl
  exact .object hmade

/-- Twelve bytes in front, two object types, and the longest identifier. -/
theorem size_run_growth (rule : Rule) :
    ((unlimited rule).run growth).size = 12 + 32 + 68 + rule.extra.length := rfl

/-- A full entry that has grown in all its parts still fits, to the last multiple of four; four more
extra bytes are refused, and so is a number of them that is not a multiple of four. -/
theorem Origin.guarded_run_growth :
    (full.run growth).Bounded ∧ (full.run growth).size = 65532 ∧
      (Edit.extra (List.replicate 65424 7)).perform (full.run growth)
        = (.error (.outOfRange .extraLength 65424 65423), full.run growth) ∧
      (Edit.extra [7]).perform (full.run growth)
        = (.error (.outOfRange .extraAlignment 1 65423), full.run growth) := by
  obtain ⟨hbounded, hguarded⟩ := origin_full.guarded_run growth
  have hlength : (List.replicate 65424 (7 : UInt8)).length = 65424 := List.length_replicate
  have hlimit : (full.run growth).body.extraLimit = 65423 := rfl
  have hsize : (full.run growth).size = 65532 := by
    rw [full, size_run_growth, length_extra_fullRule]
  refine ⟨hbounded, hsize, ?_, ?_⟩
  · have hlong := hguarded.tooLong (List.replicate 65424 7) rfl
    rw [hlength, hlimit] at hlong
    exact hlong (by decide)
  · exact hguarded.misaligned [7] rfl (by decide) (by decide)

end Entry

end SecurityDescriptor
