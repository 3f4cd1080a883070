/-
**Every entry that can be had is well-formed.**

An entry comes from its parts, from bytes or from text, and its parts can be replaced afterwards.
Each of these ways checks the extra bytes against the limit of the body at hand, and none changes
what kind of body it is, so the invariant of bodies holds at the start and is kept by every change.

Main definitions:

* `Entry.Edit`, `Entry.Edit.apply` — replacing one part of an entry;
* `Entry.Reachable` — the entries that can be had.

Main results:

* `Entry.wellFormed_apply` — one change keeps the invariant;
* `Entry.Reachable.wellFormed` — **every entry that can be had is well-formed**.
-/

import SecurityDescriptor.Proofs.Entry.Layout
import SecurityDescriptor.Proofs.Entry.Text

set_option relaxedAutoImplicit false
set_option autoImplicit false

namespace SecurityDescriptor

namespace Entry

/-! ### Changes -/

/-- A change of one part of an entry. -/
inductive Edit
  | flags (flags : Flags)
  | mask (mask : Mask)
  | sid (sid : Sid)
  | extra (extra : List UInt8)
  | objectType (guid : Option Guid)
  | inheritedType (guid : Option Guid)
  deriving DecidableEq, Repr

/-- The entry behind a change.  A change that is refused, or for which the body has no part, leaves
the entry as it was. -/
def Edit.apply (entry : Entry) : Edit → Entry
  | .flags value => entry.withFlags value
  | .mask value => (entry.withMask? value).getD entry
  | .sid value => (entry.withSid? value).getD entry
  | .extra bytes =>
      match entry.withExtra? bytes with
      | some (.ok changed) => changed
      | _ => entry
  | .objectType guid => (entry.withObjectType? guid).getD entry
  | .inheritedType guid => (entry.withInheritedType? guid).getD entry

theorem checkExtra_eq_ok_iff {limit : Nat} {extra : List UInt8} {u : Unit} :
    checkExtra limit extra = .ok u ↔ extra.length ≤ limit ∧ extra.length % 4 = 0 := by
  unfold checkExtra
  split
  · rename_i hlong
    constructor
    · intro h
      cases h
    · intro h
      exact absurd h.1 (Nat.not_le_of_lt hlong)
  · rename_i hshort
    split
    · rename_i hodd
      constructor
      · intro h
        cases h
      · intro h
        exact absurd h.2 hodd
    · rename_i heven
      exact ⟨fun _ => ⟨Nat.le_of_not_lt hshort, Decidable.of_not_not heven⟩, fun _ => rfl⟩

/-- A change of the rule that leaves the callback and the extra bytes alone keeps the invariant. -/
theorem wellFormed_mapRule? {entry changed : Entry} {f : Rule → Rule}
    (hcallback : ∀ rule, (f rule).callback = rule.callback)
    (hextra : ∀ rule, (f rule).extra = rule.extra) (h : entry.body.WellFormed)
    (hchanged : entry.mapRule? f = some changed) : changed.body.WellFormed := by
  obtain ⟨flags, rule | ⟨rule, target⟩ | ⟨mask, sid⟩ | ⟨code, extra⟩⟩ := entry
  · cases hchanged
    refine ⟨?_, ?_, h.proper⟩
    · rw [Body.extra, hextra]
      exact h.aligned
    · rw [Body.extra, hextra]
      exact h.bounded
  · cases hchanged
    refine ⟨?_, ?_, h.proper⟩
    · rw [Body.extra, hextra]
      exact h.aligned
    · rw [Body.extra, Body.extraLimit, hextra, hcallback]
      exact h.bounded
  · cases hchanged
  · cases hchanged

/-- A change of the object types that leaves the bits without a meaning alone keeps the
invariant. -/
theorem wellFormed_mapTarget? {entry changed : Entry} {f : Target → Target}
    (hreserved : ∀ target, (f target).reserved = target.reserved) (h : entry.body.WellFormed)
    (hchanged : entry.mapTarget? f = some changed) : changed.body.WellFormed := by
  obtain ⟨flags, rule | ⟨rule, target⟩ | ⟨mask, sid⟩ | ⟨code, extra⟩⟩ := entry
  · cases hchanged
  · cases hchanged
    have hproper : (f target).IsProper := by
      rw [Target.IsProper, hreserved]
      exact h.proper
    exact ⟨h.aligned, h.bounded, hproper⟩
  · cases hchanged
  · cases hchanged

/-- Extra bytes that are accepted keep the invariant. -/
theorem wellFormed_withExtra? {entry changed : Entry} {extra : List UInt8}
    (h : entry.body.WellFormed) (hchanged : entry.withExtra? extra = some (.ok changed)) :
    changed.body.WellFormed := by
  obtain ⟨flags, rule | ⟨rule, target⟩ | ⟨mask, sid⟩ | ⟨code, old⟩⟩ := entry
  · obtain ⟨_, hcheck, hdone⟩ := Outcome.bind_eq_ok_iff.1 (Option.some.inj hchanged)
    obtain ⟨hbound, haligned⟩ := checkExtra_eq_ok_iff.1 hcheck
    cases hdone
    exact ⟨haligned, hbound, h.proper⟩
  · obtain ⟨_, hcheck, hdone⟩ := Outcome.bind_eq_ok_iff.1 (Option.some.inj hchanged)
    obtain ⟨hbound, haligned⟩ := checkExtra_eq_ok_iff.1 hcheck
    cases hdone
    exact ⟨haligned, hbound, h.proper⟩
  · cases hchanged
  · obtain ⟨_, hcheck, hdone⟩ := Outcome.bind_eq_ok_iff.1 (Option.some.inj hchanged)
    obtain ⟨hbound, haligned⟩ := checkExtra_eq_ok_iff.1 hcheck
    cases hdone
    exact ⟨haligned, hbound, h.proper⟩

/-- What is offered as a change is taken only if it keeps the invariant. -/
theorem wellFormed_getD {changed : Option Entry} {entry : Entry} (h : entry.body.WellFormed)
    (hchanged : ∀ e, changed = some e → e.body.WellFormed) :
    (changed.getD entry).body.WellFormed := by
  cases changed with
  | none => exact h
  | some e => exact hchanged e rfl

/-- **One change keeps the invariant.** -/
theorem wellFormed_apply {entry : Entry} (h : entry.body.WellFormed) (edit : Edit) :
    (edit.apply entry).body.WellFormed := by
  cases edit with
  | flags flags => exact h
  | mask mask =>
      exact wellFormed_getD h fun _ => wellFormed_mapRule? (fun _ => rfl) (fun _ => rfl) h
  | sid sid =>
      exact wellFormed_getD h fun _ => wellFormed_mapRule? (fun _ => rfl) (fun _ => rfl) h
  | extra extra =>
      rw [Edit.apply]
      split
      · rename_i changed hchanged
        exact wellFormed_withExtra? h hchanged
      · exact h
  | objectType guid =>
      exact wellFormed_getD h fun _ => wellFormed_mapTarget? (fun _ => rfl) h
  | inheritedType guid =>
      exact wellFormed_getD h fun _ => wellFormed_mapTarget? (fun _ => rfl) h

/-! ### Where entries come from -/

/-- **The entries that can be had**: from their parts, from bytes, from text, and by changing the
parts of an entry. -/
inductive Reachable : Entry → Prop
  | common {flags : Flags} {rule : Rule} {entry : Entry} (h : ofCommon flags rule = .ok entry) :
      Reachable entry
  | object {flags : Flags} {rule : Rule} {objectType inheritedType : Option Guid} {entry : Entry}
      (h : ofObject flags rule objectType inheritedType = .ok entry) : Reachable entry
  | compound (flags : Flags) (mask : Mask) (sid : Sid) : Reachable (ofCompound flags mask sid)
  | custom {code : UInt8} {flags : Flags} {extra : List UInt8} {entry : Entry}
      (h : ofCustom code flags extra = .ok entry) : Reachable entry
  | decoded {bytes : List UInt8} {offset : Nat} {entry : Entry}
      (h : decodeAt bytes offset = .ok entry) : Reachable entry
  | parsed {text : List Char} {entry : Entry} (h : parse text = .ok entry) : Reachable entry
  | edited {entry : Entry} (h : Reachable entry) (edit : Edit) : Reachable (edit.apply entry)

theorem wellFormed_ofCommon {flags : Flags} {rule : Rule} {entry : Entry}
    (h : ofCommon flags rule = .ok entry) : entry.body.WellFormed := by
  obtain ⟨_, hcheck, hdone⟩ := Outcome.bind_eq_ok_iff.1 h
  obtain ⟨hbound, haligned⟩ := checkExtra_eq_ok_iff.1 hcheck
  cases hdone
  exact ⟨haligned, hbound, trivial⟩

theorem wellFormed_ofObject {flags : Flags} {rule : Rule} {objectType inheritedType : Option Guid}
    {entry : Entry} (h : ofObject flags rule objectType inheritedType = .ok entry) :
    entry.body.WellFormed := by
  obtain ⟨_, hcheck, hdone⟩ := Outcome.bind_eq_ok_iff.1 h
  obtain ⟨hbound, haligned⟩ := checkExtra_eq_ok_iff.1 hcheck
  cases hdone
  exact ⟨haligned, hbound, by simp [Body.IsProper, Target.IsProper]⟩

theorem wellFormed_ofCustom {code : UInt8} {flags : Flags} {extra : List UInt8} {entry : Entry}
    (h : ofCustom code flags extra = .ok entry) : entry.body.WellFormed := by
  unfold ofCustom at h
  split at h
  · cases h
  · rename_i hcode
    obtain ⟨_, hcheck, hdone⟩ := Outcome.bind_eq_ok_iff.1 h
    obtain ⟨hbound, haligned⟩ := checkExtra_eq_ok_iff.1 hcheck
    cases hdone
    exact ⟨haligned, hbound, UInt8.not_le.1 hcode⟩

theorem wellFormed_of_parse {text : List Char} {entry : Entry} (h : parse text = .ok entry) :
    entry.body.WellFormed := by
  obtain ⟨flags, rule, objectType, inheritedType, rfl, -, hextra, -, -⟩ := exists_parts_of_parse h
  have hbody := ofParts_eq_ok hextra flags objectType inheritedType
  unfold ofParts at hbody
  split at hbody
  · exact wellFormed_ofCommon hbody
  · exact wellFormed_ofObject hbody

/-- **Every entry that can be had is well-formed.** -/
theorem Reachable.wellFormed {entry : Entry} (h : Reachable entry) : entry.body.WellFormed := by
  induction h with
  | common h => exact wellFormed_ofCommon h
  | object h => exact wellFormed_ofObject h
  | compound flags mask sid => exact ⟨rfl, Nat.le_refl 0, trivial⟩
  | custom h => exact wellFormed_ofCustom h
  | decoded h => exact (decode_eq_ok_iff.1 (Decoder.startingAt_eq_ok_iff.1 h)).1
  | parsed h => exact wellFormed_of_parse h
  | edited _ edit ih => exact wellFormed_apply ih edit

end Entry

end SecurityDescriptor
