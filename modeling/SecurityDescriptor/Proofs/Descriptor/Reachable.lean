/-
**Every descriptor that can be had is well-formed.**

A descriptor comes from its components, from bytes or from text, and its parts can be replaced, its
lists edited and a missing discretionary list made up afterwards.  Two things hold of all of them.
The control flags that follow from the components are as they should be: whatever could upset them
settles them again.  And the lists are lists that can be had by themselves.

Main definitions:

* `Descriptor.Change`, `Descriptor.Change.apply` — one change of a descriptor;
* `Descriptor.Reachable` — the descriptors that can be had;
* `Descriptor.WellFormed` — the invariant of a descriptor.

Main results:

* `Descriptor.settle_eq_iff` — what it means for the control flags to be settled;
* `Descriptor.settled_apply`, `Descriptor.listsReachable_apply` — one change keeps the invariant;
* `Descriptor.Reachable.wellFormed` — **every descriptor that can be had is well-formed**.
-/

import SecurityDescriptor.Descriptor.Binary
import SecurityDescriptor.Descriptor.Text
import SecurityDescriptor.Proofs.AccessList.Reachable

set_option relaxedAutoImplicit false
set_option autoImplicit false

namespace SecurityDescriptor

namespace Descriptor

/-! ### Changes -/

/-- A change of a descriptor. -/
inductive Change
  | control (control : Control)
  | owner (owner : Option Sid)
  | group (group : Option Sid)
  | sacl (sacl : Option AccessList)
  | dacl (dacl : Option AccessList)
  | resourceManager (byte : Option UInt8)
  | synthesize (directory container : Bool)
  | editSacl (edit : AccessList → AccessList)
  | editDacl (edit : AccessList → AccessList)

/-- The descriptor behind a change. -/
def Change.apply (d : Descriptor) : Change → Descriptor
  | .control word => d.withControl word
  | .owner sid => d.withOwner sid
  | .group sid => d.withGroup sid
  | .sacl list => d.withSacl list
  | .dacl list => d.withDacl list
  | .resourceManager byte => d.withResourceManager byte
  | .synthesize directory container => (d.synthesize directory container).2
  | .editSacl edit => d.editSacl edit
  | .editDacl edit => d.editDacl edit

/-- A change gives a descriptor only lists that can be had: the list that is put in, or the list
behind an edit of one that can be had. -/
def Change.IsProper : Change → Prop
  | .sacl list | .dacl list => ∀ given ∈ list, given.Reachable
  | .editSacl edit | .editDacl edit => ∀ list, list.Reachable → (edit list).Reachable
  | _ => True

/-- **The descriptors that can be had**: from their components, from bytes, from text, and by
changing a descriptor. -/
inductive Reachable : Descriptor → Prop
  | made (control : Control) (owner group : Option Sid) {sacl dacl : Option AccessList}
      (hsacl : ∀ list ∈ sacl, list.Reachable) (hdacl : ∀ list ∈ dacl, list.Reachable) :
      Reachable (make control owner group sacl dacl)
  | decoded {bytes : List UInt8} {offset : Nat} {d : Descriptor}
      (h : decodeAt bytes offset = .ok d) : Reachable d
  | parsed {text : List Char} {d : Descriptor} (h : parse text = .ok d) : Reachable d
  | changed {d : Descriptor} (h : Reachable d) {change : Change} (hchange : change.IsProper) :
      Reachable (change.apply d)

theorem reachable_empty : Reachable empty :=
  .made .none none none (fun _ h => by cases h) (fun _ h => by cases h)

/-! ### Settled control flags -/

/-- The flags of a settled control word. -/
theorem has_settledControl (d : Descriptor) (flag : ControlFlag) :
    d.settledControl.has flag
      = match flag with
        | .selfRelative => true
        | .resourceManagerValid => d.resourceManager.isSome
        | .saclPresent => d.sacl.isSome || d.control.has .saclPresent
        | .daclPresent => daclFlag d.dacl (d.control.has .daclPresent)
        | other => d.control.has other := by
  cases flag <;> simp [settledControl]

/-- **The control flags are settled** if they are what the components say. -/
theorem settle_eq_iff {d : Descriptor} :
    d.settle = d ↔
      d.control.has .selfRelative = true ∧
      d.control.has .resourceManagerValid = d.resourceManager.isSome ∧
      (d.sacl.isSome = true → d.control.has .saclPresent = true) ∧
      daclFlag d.dacl (d.control.has .daclPresent) = d.control.has .daclPresent := by
  have hcontrol : d.settle = d ↔ d.settledControl = d.control := by
    constructor
    · intro h
      exact congrArg Descriptor.control h
    · intro h
      rw [settle, h]
  -- A control word is its flags, and only four of them are touched.
  rw [hcontrol]
  constructor
  · intro h
    have hflag : ∀ flag, d.settledControl.has flag = d.control.has flag := fun flag => by rw [h]
    have hrelative := hflag .selfRelative
    have hmanager := hflag .resourceManagerValid
    have hsacl := hflag .saclPresent
    have hdacl := hflag .daclPresent
    rw [has_settledControl] at hrelative hmanager hsacl hdacl
    refine ⟨hrelative.symm, hmanager.symm, ?_, hdacl⟩
    intro hsome
    rw [← hsacl, hsome]
    rfl
  · rintro ⟨hrelative, hmanager, hsacl, hdacl⟩
    apply Control.ext_has
    intro flag
    rw [has_settledControl]
    cases flag with
    | selfRelative => exact hrelative.symm
    | resourceManagerValid => exact hmanager.symm
    | saclPresent =>
        cases hsome : d.sacl.isSome with
        | false => rfl
        | true => exact (hsacl hsome).symm
    | daclPresent => exact hdacl
    | _ => rfl

theorem settled_adoptDacl {d : Descriptor} (h : d.settle = d) :
    d.adoptDacl.settle = d.adoptDacl := by
  unfold adoptDacl
  split
  · exact settle_settle _
  · exact h

/-- **One change keeps the flags settled.** -/
theorem settled_apply {d : Descriptor} (h : d.settle = d) (change : Change) :
    (change.apply d).settle = change.apply d := by
  cases change with
  | control word => exact settle_settle _
  | owner sid =>
      obtain ⟨hrelative, hmanager, hsacl, hdacl⟩ := settle_eq_iff.1 h
      exact settle_eq_iff.2 ⟨hrelative, hmanager, hsacl, hdacl⟩
  | group sid =>
      obtain ⟨hrelative, hmanager, hsacl, hdacl⟩ := settle_eq_iff.1 h
      exact settle_eq_iff.2 ⟨hrelative, hmanager, hsacl, hdacl⟩
  | sacl list => exact settle_settle _
  | dacl list => exact settle_settle _
  | resourceManager byte => exact settle_settle _
  | synthesize directory container =>
      rw [Change.apply, synthesize]
      split
      · exact settle_settle _
      · exact h
  | editSacl edit =>
      obtain ⟨hrelative, hmanager, hsacl, hdacl⟩ := settle_eq_iff.1 h
      refine settle_eq_iff.2 ⟨hrelative, hmanager, ?_, hdacl⟩
      intro hsome
      rw [Change.apply, editSacl, Option.isSome_map] at hsome
      exact hsacl hsome
  | editDacl edit =>
      -- A synthetic list is adopted first, which settles the flags; an edit leaves a list present.
      have hadopted := settled_adoptDacl h
      rw [Change.apply, editDacl]
      split
      · rename_i list hlist
        obtain ⟨hrelative, hmanager, hsacl, hdacl⟩ := settle_eq_iff.1 hadopted
        rw [hlist] at hdacl
        exact settle_eq_iff.2 ⟨hrelative, hmanager, hsacl, hdacl⟩
      · exact hadopted

/-! ### Lists -/

/-- The lists of a descriptor can be had, the one that was made up included. -/
def ListsReachable (d : Descriptor) : Prop :=
  (∀ list ∈ d.sacl, list.Reachable) ∧ ∀ list ∈ d.dacl.list?, list.Reachable

theorem list?_ofOption (list : Option AccessList) : (Dacl.ofOption list).list? = list := by
  cases list <;> rfl

/-- The entry that allows everyone everything is a common one without extra bytes. -/
theorem ofCommon_fullAccess (container : Bool) :
    Entry.ofCommon (fullAccess container).flags ⟨.allow, false, 0xFFFFFFFF, everyone, []⟩
      = .ok (fullAccess container) := rfl

/-- The list that grants everyone everything fits in its size field. -/
theorem ofEntries_fullAccess (directory container : Bool) :
    AccessList.ofEntries (fullAccessList directory container).revision [fullAccess container]
      = .ok (fullAccessList directory container) := by
  have hfit : AccessList.headerSize + AccessList.entriesSize [fullAccess container]
      ≤ AccessList.maxSize := by
    cases container <;> decide
  exact AccessList.ofEntries_eq_ok_iff.2 ⟨hfit, rfl⟩

theorem reachable_fullAccessList (directory container : Bool) :
    (fullAccessList directory container).Reachable := by
  refine .ofEntries ?_ (ofEntries_fullAccess directory container)
  intro entry hentry
  rw [List.mem_singleton.1 hentry]
  exact .common (ofCommon_fullAccess container)

theorem listsReachable_adoptDacl {d : Descriptor} (h : d.ListsReachable) :
    d.adoptDacl.ListsReachable := by
  unfold adoptDacl
  split
  · rename_i list hlist
    refine ⟨h.1, ?_⟩
    intro other hother
    have hsame : other ∈ d.dacl.list? := by
      rw [hlist]
      exact hother
    exact h.2 other hsame
  · exact h

/-- **One change keeps the lists such as can be had.** -/
theorem listsReachable_apply {d : Descriptor} (h : d.ListsReachable) {change : Change}
    (hchange : change.IsProper) : (change.apply d).ListsReachable := by
  cases change with
  | control word => exact h
  | owner sid => exact h
  | group sid => exact h
  | sacl list => exact ⟨hchange, h.2⟩
  | dacl list =>
      refine ⟨h.1, ?_⟩
      intro other hother
      rw [Change.apply, withDacl, settle, list?_ofOption] at hother
      exact hchange other hother
  | resourceManager byte => exact h
  | synthesize directory container =>
      rw [Change.apply, synthesize]
      split
      · refine ⟨h.1, ?_⟩
        intro other hother
        cases hother
        exact reachable_fullAccessList directory container
      · exact h
  | editSacl edit =>
      refine ⟨?_, h.2⟩
      intro other hother
      obtain ⟨list, hlist, rfl⟩ := Option.map_eq_some_iff.1 hother
      exact hchange list (h.1 list hlist)
  | editDacl edit =>
      have hadopted := listsReachable_adoptDacl h
      rw [Change.apply, editDacl]
      split
      · rename_i list hlist
        refine ⟨hadopted.1, ?_⟩
        intro other hother
        cases hother
        refine hchange list (hadopted.2 list ?_)
        rw [hlist]
        rfl
      · exact hadopted

/-! ### Reading -/

/-- A component that was read through a slot was read from some bytes. -/
theorem exists_of_decodeSlot {α : Type} {decode : Decoder α} {bytes : List UInt8} {inUse : Bool}
    {slot : Nat} {component : Option α} (h : decodeSlot decode bytes inUse slot = .ok component) :
    ∀ a ∈ component, decode.startingAt bytes slot = .ok a := by
  unfold decodeSlot at h
  split at h
  · obtain ⟨b, hb, h₁⟩ := Outcome.bind_eq_ok_iff.1 h
    cases h₁
    intro a ha
    cases ha
    exact hb
  · cases h
    intro a ha
    cases ha

theorem listsReachable_of_decode {bytes : List UInt8} {d : Descriptor} (h : decode bytes = .ok d) :
    d.ListsReachable ∧ d.settle = d := by
  unfold decode at h
  split at h
  · cases h
  · split at h
    · cases h
    · split at h
      · cases h
      · obtain ⟨owner, -, h₁⟩ := Outcome.bind_eq_ok_iff.1 h
        obtain ⟨group, -, h₂⟩ := Outcome.bind_eq_ok_iff.1 h₁
        obtain ⟨sacl, hsacl, h₃⟩ := Outcome.bind_eq_ok_iff.1 h₂
        obtain ⟨dacl, hdacl, h₄⟩ := Outcome.bind_eq_ok_iff.1 h₃
        cases h₄
        refine ⟨⟨?_, ?_⟩, settle_settle _⟩
        · intro list hlist
          exact .decoded (exists_of_decodeSlot hsacl list hlist)
        · intro list hlist
          rw [settle, list?_ofOption] at hlist
          exact .decoded (exists_of_decodeSlot hdacl list hlist)

/-- A list in a section was read from text. -/
theorem exists_of_parseListSection {side : ListSide} {content : List Char} {parsed : ListSection}
    (h : parseListSection side content = .ok parsed) :
    ∀ list ∈ parsed.list, ∃ body, AccessList.parse body = .ok list := by
  unfold parseListSection at h
  dsimp only at h
  split at h
  · cases h
  · split at h
    · split at h
      · cases h
        intro list hlist
        cases hlist
      · cases h
    · split at h
      · cases h
      · obtain ⟨list, hlist, h₁⟩ := Outcome.bind_eq_ok_iff.1 h
        cases h₁
        intro other hother
        cases hother
        exact ⟨_, hlist⟩

theorem parseSection_eq_ok_iff {α : Type} {parse : List Char → Except Error α}
    {content : Option (List Char)} {value : Option α} :
    parseSection parse content = .ok value
      ↔ (content = none ∧ value = none) ∨
        ∃ text a, content = some text ∧ value = some a ∧ parse text = .ok a := by
  cases content with
  | none => simp [parseSection, eq_comm]
  | some text =>
      rw [parseSection, Outcome.bind_eq_ok_iff]
      constructor
      · rintro ⟨a, ha, h⟩
        exact .inr ⟨text, a, rfl, (Outcome.pure_eq_ok_iff.1 h).symm, ha⟩
      · rintro (⟨h, -⟩ | ⟨text', a, h, rfl, ha⟩)
        · cases h
        · cases h
          exact ⟨a, ha, rfl⟩

/-- A list that was read in a section that may be missing was read from text. -/
theorem exists_of_parseSection {side : ListSide} {content : Option (List Char)}
    {parsed : Option ListSection}
    (h : parseSection (parseListSection side) content = .ok parsed) :
    ∀ list ∈ parsed.bind ListSection.list, ∃ body, AccessList.parse body = .ok list := by
  intro list hlist
  obtain ⟨listSection, hsection, hmem⟩ := Option.bind_eq_some_iff.1 hlist
  rcases parseSection_eq_ok_iff.1 h with ⟨-, rfl⟩ | ⟨text, found, -, rfl, hread⟩
  · cases hsection
  · cases hsection
    exact exists_of_parseListSection hread list hmem

/-- **The lists of a descriptor that was read from text were read from text.** -/
theorem exists_bodies_of_parse {text : List Char} {d : Descriptor} (h : parse text = .ok d) :
    (∀ list ∈ d.sacl, ∃ body, AccessList.parse body = .ok list) ∧
      (∀ list ∈ d.dacl.list?, ∃ body, AccessList.parse body = .ok list) ∧ d.settle = d := by
  obtain ⟨sections, -, h₁⟩ := Outcome.bind_eq_ok_iff.1 h
  obtain ⟨owner, -, h₂⟩ := Outcome.bind_eq_ok_iff.1 h₁
  obtain ⟨group, -, h₃⟩ := Outcome.bind_eq_ok_iff.1 h₂
  obtain ⟨dacl, hdacl, h₄⟩ := Outcome.bind_eq_ok_iff.1 h₃
  obtain ⟨sacl, hsacl, h₅⟩ := Outcome.bind_eq_ok_iff.1 h₄
  cases h₅
  refine ⟨exists_of_parseSection hsacl, ?_, settle_settle _⟩
  intro list hlist
  rw [settle, list?_ofOption] at hlist
  exact exists_of_parseSection hdacl list hlist

theorem listsReachable_of_parse {text : List Char} {d : Descriptor} (h : parse text = .ok d) :
    d.ListsReachable ∧ d.settle = d := by
  obtain ⟨hsacl, hdacl, hsettled⟩ := exists_bodies_of_parse h
  have hreachable : ∀ list : AccessList, (∃ body, AccessList.parse body = .ok list) →
      list.Reachable := by
    rintro list ⟨body, hbody⟩
    exact .parsed hbody
  exact ⟨⟨fun list hlist => hreachable list (hsacl list hlist),
    fun list hlist => hreachable list (hdacl list hlist)⟩, hsettled⟩

/-! ### The invariant -/

/-- **The invariant of a descriptor.** -/
structure WellFormed (d : Descriptor) : Prop where
  sacl : ∀ list ∈ d.sacl, list.WellFormed
  dacl : ∀ list ∈ d.dacl.list?, list.WellFormed
  settled : d.settle = d

/-- Along every run of changes the lists can be had and the flags are settled. -/
theorem Reachable.invariant {d : Descriptor} (h : Reachable d) :
    d.ListsReachable ∧ d.settle = d := by
  induction h with
  | made control owner group hsacl hdacl =>
      refine ⟨⟨hsacl, ?_⟩, settle_settle _⟩
      intro list hlist
      rw [make, settle, list?_ofOption] at hlist
      exact hdacl list hlist
  | decoded h => exact listsReachable_of_decode (Decoder.startingAt_eq_ok_iff.1 h)
  | parsed h => exact listsReachable_of_parse h
  | changed _ hchange ih => exact ⟨listsReachable_apply ih.1 hchange, settled_apply ih.2 _⟩

/-- **Every descriptor that can be had is well-formed.** -/
theorem Reachable.wellFormed {d : Descriptor} (h : Reachable d) : d.WellFormed := by
  obtain ⟨⟨hsacl, hdacl⟩, hsettled⟩ := h.invariant
  exact ⟨fun list hlist => (hsacl list hlist).wellFormed,
    fun list hlist => (hdacl list hlist).wellFormed, hsettled⟩

end Descriptor

end SecurityDescriptor
