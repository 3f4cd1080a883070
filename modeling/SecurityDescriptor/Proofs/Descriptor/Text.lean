/-
**What the text of a descriptor means.**

The text of a descriptor is written section by section and read section by section.  An owner or
group is read as it was, and a list as its section says.  So a text is read as the textual form of
the descriptor: the selected parts, the lists in their textual form, and of the control word what
the marks of the selected lists say.  A text is refused exactly if a selected list is there and has
no entries.

A descriptor that was read from a text is its own textual form, so its text is read as the same
descriptor again.

Main definitions:

* `Descriptor.storedList`, `Descriptor.isNull` — the stored list of a side, and whether a missing
  one is written as a null list;
* `Descriptor.HasEmptyList` — a list is written and has no entries;
* `Descriptor.textFlags`, `Descriptor.textual` — what is left of a descriptor in its text;
* `Descriptor.Writes` — the sections that are written for a descriptor.

Main results:

* `Descriptor.exists_sections_of_render` — a text is written section by section;
* `Descriptor.textual_of_parse` — a descriptor that was read from a text is its own textual form;
* `Descriptor.parse_render_meaning` — **what a text is read as, and when it is refused**;
* `Descriptor.parse_render_of_parse` — **reading, writing and reading gives the same descriptor**.
-/

import SecurityDescriptor.Proofs.Descriptor.Layout
import SecurityDescriptor.Proofs.Descriptor.ListRender

set_option relaxedAutoImplicit false
set_option autoImplicit false

namespace SecurityDescriptor

namespace Descriptor

/-! ### The parts of a descriptor -/

/-- A principal of a descriptor. -/
def principal (d : Descriptor) : Principal → Option Sid
  | .owner => d.owner
  | .group => d.group

/-- The stored list of a side. -/
def storedList (d : Descriptor) : ListSide → Option AccessList
  | .discretionary => d.dacl.stored?
  | .system => d.sacl

/-- Whether a list that is not stored is written as a null list: it is marked as present, or only
stood in for. -/
def isNull (d : Descriptor) : ListSide → Bool
  | .discretionary => d.dacl.isSynthetic || d.control.has .daclPresent
  | .system => d.control.has .saclPresent

/-- The list of a side is selected, is there and has no entries. -/
def HasEmptyList (d : Descriptor) (selection : Selection) (side : ListSide) : Prop :=
  selection.has side.name = true ∧ ∃ list ∈ d.storedList side, list.entries = []

/-- **The control flags that are left of a list in a text**: those that are written as marks, and
that of its presence if the list is written at all. -/
def textFlags (d : Descriptor) (selection : Selection) (side : ListSide) : List ControlFlag :=
  if selection.has side.name then
    (if writesSection side d.control (d.storedList side) (d.isNull side) then [side.presence]
      else []) ++ side.markFlags.filter d.control.has
  else []

/-- The part of a descriptor that is selected, if it is there. -/
def selected {α : Type} (selection : Selection) (name : SectionName) (part : Option α) : Option α :=
  if selection.has name then part else none

/-- **What is left of a descriptor in its text**, limited to the selected sections. -/
def textual (d : Descriptor) (selection : Selection) : Descriptor where
  control := Control.ofList (.selfRelative ::
    (d.textFlags selection .discretionary ++ d.textFlags selection .system))
  owner := selected selection .owner d.owner
  group := selected selection .group d.group
  sacl := selected selection .sacl (d.sacl.map AccessList.textual)
  dacl := .ofOption (selected selection .dacl (d.dacl.stored?.map AccessList.textual))
  resourceManager := none

/-! ### Writing section by section -/

/-- The text of a section if it is selected. -/
def renderSelected (d : Descriptor) (selection : Selection) (name : SectionName) :
    Except Error (List Char) :=
  if selection.has name then d.renderSection name else .ok []

/-- The first section is written, and then the others. -/
theorem renderSections_cons (d : Descriptor) (selection : Selection) (name : SectionName)
    (names : List SectionName) :
    d.renderSections selection (name :: names)
      = d.renderSelected selection name >>= fun text =>
          (d.renderSections selection names).map (text ++ ·) := by
  rw [renderSections, renderSelected]
  split <;> rfl

/-- A text is put together from sections that can all be written. -/
theorem exists_of_renderSections {d : Descriptor} {selection : Selection}
    {names : List SectionName} {text : List Char}
    (h : d.renderSections selection names = .ok text) :
    ∀ name ∈ names, ∃ written, d.renderSelected selection name = .ok written := by
  induction names generalizing text with
  | nil => exact fun _ hname => (List.not_mem_nil hname).elim
  | cons first names ih =>
      rw [renderSections_cons] at h
      obtain ⟨written, hwritten, h₁⟩ := Outcome.bind_eq_ok_iff.1 h
      obtain ⟨rest, hrest, -⟩ := Outcome.map_eq_ok_iff.1 h₁
      intro name hname
      rcases List.mem_cons.1 hname with rfl | hname
      · exact ⟨written, hwritten⟩
      · exact ih hrest name hname

theorem renderSections_eq {d : Descriptor} {selection : Selection} {names : List SectionName}
    {written : SectionName → List Char}
    (h : ∀ name ∈ names, d.renderSelected selection name = .ok (written name)) :
    d.renderSections selection names = .ok (names.flatMap written) := by
  induction names with
  | nil => rfl
  | cons name names ih =>
      rw [renderSections_cons, h name (List.mem_cons_self ..), Outcome.ok_bind,
        ih fun other hother => h other (List.mem_cons_of_mem _ hother)]
      rfl

/-- What is written depends on no more of a selection than on the sections that are selected. -/
theorem renderSections_congr (d : Descriptor) {a b : Selection} (names : List SectionName)
    (h : ∀ name, a.has name = b.has name) :
    d.renderSections a names = d.renderSections b names := by
  induction names with
  | nil => rfl
  | cons name names ih => rw [renderSections, renderSections, h name, ih]

/-- What is written behind the letter of a principal. -/
def principalContent (d : Descriptor) (selection : Selection) (which : Principal) :
    Option (List Char) :=
  selected selection which.name ((d.principal which).map Sid.render)

/-- What is written behind the letter of a list. -/
def sideContent (d : Descriptor) (selection : Selection) (side : ListSide) :
    Except Error (Option (List Char)) :=
  if selection.has side.name then
    listContent side d.control (d.storedList side) (d.isNull side)
  else .ok none

theorem renderSelected_principal (d : Descriptor) (selection : Selection) (which : Principal) :
    d.renderSelected selection which.name
      = .ok (Sections.optionText which.name (d.principalContent selection which)) := by
  have hwritten : ∀ (name : SectionName) (sid : Option Sid),
      renderPrincipal name sid = Sections.optionText name (sid.map Sid.render) := by
    intro name sid
    cases sid <;> rfl
  rw [renderSelected, principalContent, selected]
  split
  · cases which with
    | owner => exact congrArg _ (hwritten .owner d.owner)
    | group => exact congrArg _ (hwritten .group d.group)
  · rfl

theorem renderSelected_side (d : Descriptor) (selection : Selection) (side : ListSide) :
    d.renderSelected selection side.name
      = (d.sideContent selection side).map (Sections.optionText side.name) := by
  have hwritten : d.renderSection side.name
      = renderList side d.control (d.storedList side) (d.isNull side) := by
    cases side <;> rfl
  rw [renderSelected, sideContent]
  split
  · rw [hwritten, renderList_eq]
  · rfl

/-- **The sections that are written for a descriptor.** -/
structure Writes (d : Descriptor) (selection : Selection) (sections : Sections) : Prop where
  principal : ∀ which : Principal, sections.get which.name = d.principalContent selection which
  side : ∀ side : ListSide, d.sideContent selection side = .ok (sections.get side.name)

/-- **A text is written section by section.** -/
theorem exists_sections_of_render {d : Descriptor} {selection : Selection} {text : List Char}
    (h : d.render selection = .ok text) :
    ∃ sections : Sections, d.Writes selection sections ∧
      text = SectionName.all.flatMap fun name => Sections.optionText name (sections.get name) := by
  have hside : ∀ side : ListSide, ∃ content, d.sideContent selection side = .ok content := by
    intro side
    have hmem : side.name ∈ SectionName.all := by
      cases side <;> decide
    obtain ⟨written, hwritten⟩ := exists_of_renderSections h side.name hmem
    rw [renderSelected_side] at hwritten
    obtain ⟨content, hcontent, -⟩ := Outcome.map_eq_ok_iff.1 hwritten
    exact ⟨content, hcontent⟩
  -- The identifiers can always be written; the lists could, since there is a text.
  obtain ⟨dacl, hdacl⟩ := hside .discretionary
  obtain ⟨sacl, hsacl⟩ := hside .system
  let sections : Sections := ⟨d.principalContent selection .owner,
    d.principalContent selection .group, dacl, sacl⟩
  have hwrites : d.Writes selection sections := by
    refine ⟨?_, ?_⟩
    · intro which
      cases which <;> rfl
    · intro side
      cases side with
      | discretionary => exact hdacl
      | system => exact hsacl
  refine ⟨sections, hwrites, ?_⟩
  have hwritten : ∀ name ∈ SectionName.all, d.renderSelected selection name
      = .ok (Sections.optionText name (sections.get name)) := by
    intro name _
    cases name with
    | owner => exact renderSelected_principal d selection .owner
    | group => exact renderSelected_principal d selection .group
    | dacl => exact (renderSelected_side d selection .discretionary).trans (congrArg _ hdacl)
    | sacl => exact (renderSelected_side d selection .system).trans (congrArg _ hsacl)
  exact Except.ok.inj (h.symm.trans (renderSections_eq hwritten))

/-! ### What the sections are read as -/

/-- What the section of a list is read as. -/
def readSide (d : Descriptor) (selection : Selection) (side : ListSide) : Option ListSection :=
  selected selection side.name (readList side d.control (d.storedList side) (d.isNull side))

namespace Writes

variable {d : Descriptor} {selection : Selection} {sections : Sections}

theorem enclosed (h : d.Writes selection sections) (name : SectionName) :
    ∀ content ∈ sections.get name, Text.Enclosed content := by
  have hprincipal : ∀ which : Principal, ∀ content ∈ sections.get which.name,
      Text.Enclosed content := by
    intro which content hcontent
    rw [h.principal, principalContent, selected] at hcontent
    split at hcontent
    · obtain ⟨sid, -, rfl⟩ := Option.map_eq_some_iff.1 hcontent
      exact (Sid.isPlain_render sid).enclosed
    · cases hcontent
  have hlist : ∀ side : ListSide, ∀ content ∈ sections.get side.name, Text.Enclosed content := by
    intro side content hcontent
    have hside := h.side side
    rw [sideContent] at hside
    split at hside
    · exact enclosed_of_listContent hside content hcontent
    · rw [← Except.ok.inj hside] at hcontent
      cases hcontent
  cases name with
  | owner => exact hprincipal .owner
  | group => exact hprincipal .group
  | dacl => exact hlist .discretionary
  | sacl => exact hlist .system

/-- A principal is read as it was. -/
theorem parse_principal (h : d.Writes selection sections) (which : Principal) :
    parseSection parsePrincipal (sections.get which.name)
      = .ok (selected selection which.name (d.principal which)) := by
  rw [h.principal, principalContent, selected, selected]
  split
  · cases d.principal which with
    | none => rfl
    | some sid =>
        rw [Option.map_some, parseSection, parsePrincipal_eq_ok_iff.2 (Sid.parse_render sid)]
        rfl
  · rfl

/-- A list without entries is not read back. -/
theorem parse_empty (h : d.Writes selection sections) {side : ListSide}
    (hempty : d.HasEmptyList selection side) :
    ∃ offset, parseSection (parseListSection side) (sections.get side.name)
      = .error (.descriptor .listMissing offset) := by
  obtain ⟨hselected, list, hlist, hnil⟩ := hempty
  have hside := h.side side
  rw [sideContent, if_pos hselected, Option.mem_def.1 hlist] at hside
  exact ⟨_, parseSection_listContent_empty hnil hside⟩

/-- Any other list is read as its section says. -/
theorem parse_side (h : d.Writes selection sections) (hd : d.WellFormed) {side : ListSide}
    (hfull : ¬d.HasEmptyList selection side) :
    parseSection (parseListSection side) (sections.get side.name)
      = .ok (d.readSide selection side) := by
  have hside := h.side side
  rw [sideContent] at hside
  rw [readSide, selected]
  split at hside
  · rename_i hselected
    have hsize : ∀ list ∈ d.storedList side, list.size ≤ AccessList.maxSize := by
      intro list hlist
      cases side with
      | discretionary => exact (hd.dacl list (mem_list?_of_mem_stored? hlist)).size_le
      | system => exact (hd.sacl list hlist).size_le
    have hne : ∀ list ∈ d.storedList side, list.entries ≠ [] :=
      fun list hlist hnil => hfull ⟨hselected, list, hlist, hnil⟩
    rw [if_pos hselected]
    exact parseSection_listContent hsize hne hside
  · rename_i hselected
    rw [if_neg hselected, ← Except.ok.inj hside]
    rfl

end Writes

/-! ### What a text is read as -/

/-- Marks are written only together with the section. -/
theorem filter_eq_nil_of_not_writes {side : ListSide} {control : Control}
    {list : Option AccessList} {present : Bool}
    (h : ¬writesSection side control list present = true) :
    side.markFlags.filter control.has = [] := by
  rw [writesSection, Bool.or_eq_true, not_or, List.any_eq_true] at h
  rw [List.filter_eq_nil_iff]
  intro flag hflag hhas
  exact h.2 ⟨flag, hflag, hhas⟩

/-- What the section of a list is read as stands for the flags that are left of the list. -/
theorem standsFor_readSide (d : Descriptor) (selection : Selection) (side : ListSide) :
    StandsFor side (d.readSide selection side) (d.textFlags selection side) := by
  have hnone : StandsFor side none [] := by
    refine ⟨?_, ?_, List.not_mem_nil⟩
    · intro flag
      exact Control.has_none flag
    · intro hsome
      cases hsome
  rw [readSide, selected, textFlags]
  split
  · rw [readList]
    split
    · refine ⟨?_, fun _ => List.mem_cons_self .., ?_⟩
      · intro flag
        exact has_ofList _ flag
      · intro hmem
        refine side.resourceManagerValid_notMem_flags ?_
        rcases List.mem_cons.1 hmem with hpresence | hmark
        · exact List.mem_cons.2 (.inl hpresence)
        · exact List.mem_cons_of_mem _ (List.mem_filter.1 hmark).1
    · rename_i hwrites
      rw [filter_eq_nil_of_not_writes hwrites]
      exact hnone
  · exact hnone

theorem bind_readSide (d : Descriptor) (selection : Selection) (side : ListSide) :
    (d.readSide selection side).bind ListSection.list
      = selected selection side.name ((d.storedList side).map AccessList.textual) := by
  rw [readSide, selected, selected]
  split
  · rw [readList]
    split
    · rfl
    · rename_i hwrites
      cases hlist : d.storedList side with
      | none => rfl
      | some list =>
          rw [hlist, writesSection, Option.isSome_some, Bool.true_or, Bool.true_or] at hwrites
          exact absurd rfl hwrites
  · rfl

/-- A text is refused if a list was written that has no entries. -/
theorem parse_error_of_render {d : Descriptor} (hd : d.WellFormed) {selection : Selection}
    {text : List Char} (h : d.render selection = .ok text)
    (hempty : ∃ side : ListSide, d.HasEmptyList selection side) :
    ∃ offset, parse text = .error (.descriptor .listMissing offset) := by
  obtain ⟨sections, hwrites, rfl⟩ := exists_sections_of_render h
  have howner := hwrites.parse_principal .owner
  have hgroup := hwrites.parse_principal .group
  simp only [Principal.name, Sections.get] at howner hgroup
  rw [parse, Sections.ofText_flatMap_optionText hwrites.enclosed, Outcome.ok_bind, howner,
    Outcome.ok_bind, hgroup, Outcome.ok_bind]
  -- The discretionary list is read first, so its error comes first.
  by_cases hdacl : d.HasEmptyList selection .discretionary
  · obtain ⟨offset, herror⟩ := hwrites.parse_empty hdacl
    simp only [ListSide.name, Sections.get] at herror
    rw [herror, Outcome.error_bind]
    exact ⟨offset, rfl⟩
  · have hsacl : d.HasEmptyList selection .system := by
      obtain ⟨side, hside⟩ := hempty
      cases side with
      | discretionary => exact absurd hside hdacl
      | system => exact hside
    have hok := hwrites.parse_side hd hdacl
    obtain ⟨offset, herror⟩ := hwrites.parse_empty hsacl
    simp only [ListSide.name, Sections.get] at hok herror
    rw [hok, Outcome.ok_bind, herror, Outcome.error_bind]
    exact ⟨offset, rfl⟩

/-- Otherwise it is read as the textual form of the descriptor. -/
theorem parse_of_render {d : Descriptor} (hd : d.WellFormed) {selection : Selection}
    {text : List Char} (h : d.render selection = .ok text)
    (hfull : ∀ side : ListSide, ¬d.HasEmptyList selection side) :
    parse text = .ok (d.textual selection) := by
  obtain ⟨sections, hwrites, rfl⟩ := exists_sections_of_render h
  have hparsed := parse_of_sections (Sections.ofText_flatMap_optionText hwrites.enclosed)
    hwrites.parse_principal (fun side => hwrites.parse_side hd (hfull side))
    (standsFor_readSide d selection)
  rw [ofParts, bind_readSide, bind_readSide] at hparsed
  exact hparsed

/-- **What a text means.**  It depends on the selected sections and on nothing else of a selection.
It is refused if a selected list is there and has no entries, and is otherwise read as the textual
form of the descriptor. -/
theorem parse_render_meaning {d : Descriptor} (hd : d.Reachable) (selection : Selection) :
    (∀ other : Selection, (∀ name, other.has name = selection.has name) →
      d.render other = d.render selection) ∧
    ∀ text, d.render selection = .ok text →
      ((∃ side : ListSide, d.HasEmptyList selection side) →
        ∃ e, parse text = .error e ∧ e.kind = .malformedDescriptor) ∧
      ((¬∃ side : ListSide, d.HasEmptyList selection side) →
        parse text = .ok (d.textual selection)) := by
  refine ⟨?_, ?_⟩
  · intro other hsame
    exact renderSections_congr d SectionName.all hsame
  · intro text htext
    refine ⟨?_, ?_⟩
    · intro hempty
      obtain ⟨offset, herror⟩ := parse_error_of_render hd.wellFormed htext hempty
      exact ⟨_, herror, rfl⟩
    · intro hfull
      exact parse_of_render hd.wellFormed htext fun side hside => hfull ⟨side, hside⟩

/-- A descriptor whose discretionary list is made up. -/
def stoodIn : Descriptor := (empty.synthesize false false).2

theorem reachable_stoodIn : stoodIn.Reachable := by
  have hproper : (Change.synthesize false false).IsProper := trivial
  exact .changed reachable_empty hproper

/-- A descriptor whose discretionary list has no entries. -/
def emptied : Descriptor :=
  make .none none none none (some (AccessList.empty AccessList.plainRevision))

theorem reachable_emptied : emptied.Reachable := by
  refine .made .none none none (fun _ h => by cases h) ?_
  intro list hlist
  cases hlist
  exact .empty _

/-- An entry whose only object type is all zeroes, with extra bytes and the flag bit that has no
name. -/
def untyped : Entry :=
  ⟨⟨0x22⟩, .object ⟨.allow, true, 0x10000000, everyone, [1, 2, 3, 4]⟩ ⟨some .null, none, 0⟩⟩

/-- The object type of users. -/
def userType : Guid := ⟨0xBF967ABA, 0x0DE6, 0x11D0, 0xA28500AA003049E2⟩

/-- An entry of which one object type is all zeroes and the other one is not, with a bit of the word
of its object types that has no meaning. -/
def halfTyped : Entry :=
  ⟨⟨0x20⟩, .object ⟨.deny, false, 0x10000000, everyone, []⟩ ⟨some userType, some .null, 0x10⟩⟩

/-- A descriptor that has more of everything than its text keeps. -/
def burdened : Descriptor :=
  (make (Control.ofList [.daclAutoInherited, .serverSecurity]) (some everyone) none none
    (some ⟨AccessList.directoryRevision, [untyped, halfTyped]⟩)).withResourceManager (some 7)

/-- The text of `burdened`. -/
def burdenedText : List Char :=
  ("O:S-1-1-0D:AI(ZA;CI;0x10000000;00000000-0000-0000-0000-000000000000;;S-1-1-0)" ++
    "(OD;;0x10000000;bf967aba-0de6-11d0-a285-00aa003049e2;00000000-0000-0000-0000-000000000000;" ++
    "S-1-1-0)").toList

theorem reachable_burdened : burdened.Reachable := by
  have huntyped : Entry.decodeAt untyped.encode 0 = .ok untyped := by decide +kernel
  have hhalfTyped : Entry.decodeAt halfTyped.encode 0 = .ok halfTyped := by decide +kernel
  have hentries : ∀ entry ∈ [untyped, halfTyped], entry.Reachable := by
    intro entry hentry
    rcases List.mem_pair.mp hentry with rfl | rfl
    · exact .decoded huntyped
    · exact .decoded hhalfTyped
  have hlist : AccessList.ofEntries AccessList.directoryRevision [untyped, halfTyped]
      = .ok ⟨AccessList.directoryRevision, [untyped, halfTyped]⟩ := by rfl
  have hproper : (Change.resourceManager (some 7)).IsProper := trivial
  refine .changed (.made _ _ none (fun _ h => by cases h) ?_) hproper
  intro list hlist'
  cases hlist'
  exact .ofEntries hentries hlist

/-- A list that is made up is written as a null list, and one without entries is not.  Of a list with
more than text keeps, the first entry becomes a common one, and the second one still makes the list
one of object entries. -/
theorem parse_render_meaning_stoodIn_emptied_burdened :
    stoodIn.render ⟨0xFF⟩ = .ok "D:NO_ACCESS_CONTROL".toList ∧
    parse "D:NO_ACCESS_CONTROL".toList = .ok (stoodIn.textual .all) ∧
    stoodIn.textual .all = ⟨Control.ofList [.selfRelative, .daclPresent],
      none, none, none, .absent, none⟩ ∧
    emptied.render .all = .ok "D:".toList ∧
    (∃ e, parse "D:".toList = .error e ∧ e.kind = .malformedDescriptor) ∧
    burdened.render .all = .ok burdenedText ∧
    parse burdenedText = .ok (burdened.textual .all) ∧
    burdened.textual .all = ⟨Control.ofList [.selfRelative, .daclPresent, .daclAutoInherited],
      some everyone, none, none,
      .present ⟨AccessList.directoryRevision,
        [ ⟨⟨0x02⟩, .common ⟨.allow, true, 0x10000000, everyone, []⟩⟩,
          ⟨.none, .object ⟨.deny, false, 0x10000000, everyone, []⟩ ⟨some userType, none, 0⟩⟩ ]⟩,
      none⟩ := by
  have hwritten : stoodIn.render .all = .ok "D:NO_ACCESS_CONTROL".toList := by decide
  have hsame : ∀ name, Selection.has ⟨0xFF⟩ name = Selection.has .all name := by
    intro name
    cases name <;> rfl
  have hfull : ¬∃ side : ListSide, stoodIn.HasEmptyList .all side := by
    rintro ⟨side, -, list, hlist, -⟩
    cases side <;> cases hlist
  have hnothing : emptied.render .all = .ok "D:".toList := by decide
  have hempty : emptied.HasEmptyList .all .discretionary := ⟨rfl, _, rfl, rfl⟩
  have hall : burdened.render .all = .ok burdenedText := by decide +kernel
  have hentries : ¬∃ side : ListSide, burdened.HasEmptyList .all side := by
    rintro ⟨side, -, list, hlist, hnone⟩
    cases side with
    | discretionary =>
        cases hlist
        cases hnone
    | system => cases hlist
  refine ⟨?_, ?_, by decide, hnothing, ?_, hall, ?_, by decide +kernel⟩
  · rw [(parse_render_meaning reachable_stoodIn .all).1 _ hsame, hwritten]
  · exact ((parse_render_meaning reachable_stoodIn .all).2 _ hwritten).2 hfull
  · exact ((parse_render_meaning reachable_emptied .all).2 _ hnothing).1 ⟨_, hempty⟩
  · exact ((parse_render_meaning reachable_burdened .all).2 _ hall).2 hentries

/-! ### What was read from a text -/

theorem stored?_ofOption (list : Option AccessList) : (Dacl.ofOption list).stored? = list := by
  cases list <;> rfl

/-- A list section says something about its own list only. -/
theorem mem_flags_of_mem_sectionFlags {side : ListSide} {list : Option ListText}
    {flag : ControlFlag} (h : flag ∈ sectionFlags side list) : flag ∈ side.flags := by
  obtain ⟨l, -, hflag⟩ := List.mem_flatMap.1 h
  rcases List.mem_cons.1 hflag with rfl | hmark
  · exact List.mem_cons_self ..
  · obtain ⟨mark, -, hmark⟩ := List.mem_filterMap.1 hmark
    refine List.mem_cons_of_mem _ ?_
    cases side <;> cases mark <;> cases hmark <;> decide

/-- A list section says that its list is present, whatever else it says. -/
theorem presence_mem {side : ListSide} {list : Option ListText} {flag : ControlFlag}
    (h : flag ∈ sectionFlags side list) : side.presence ∈ sectionFlags side list := by
  obtain ⟨l, hl, -⟩ := List.mem_flatMap.1 h
  exact List.mem_flatMap.2 ⟨l, hl, List.mem_cons_self ..⟩

/-- What the control word says about a list is what the section of the list says. -/
theorem has_assemble (parts : List SectionText) {side : ListSide} {flag : ControlFlag}
    (h : flag ∈ side.flags) :
    (assemble parts).control.has flag = true
      ↔ flag ∈ sectionFlags side (parts.findSome? (SectionText.list? side)) := by
  have hrelative : flag ≠ .selfRelative := by
    rintro rfl
    exact side.selfRelative_notMem_flags h
  have hother : ∀ other : ListSide, other ≠ side → ∀ list, flag ∉ sectionFlags other list :=
    fun other hne list hmem =>
      hne (ListSide.eq_of_mem_flags (mem_flags_of_mem_sectionFlags hmem) h)
  rw [assemble, has_ofList, decide_eq_true_eq, List.mem_cons, List.mem_append]
  cases side with
  | discretionary => simp [hrelative, hother .system (by decide)]
  | system => simp [hrelative, hother .discretionary (by decide)]

theorem storedList_assemble (parts : List SectionText) (side : ListSide) :
    (assemble parts).storedList side
      = (parts.findSome? (SectionText.list? side)).bind ListText.list? := by
  cases side with
  | discretionary => exact stored?_ofOption _
  | system => rfl

theorem isNull_assemble (parts : List SectionText) (side : ListSide) :
    (assemble parts).isNull side = (assemble parts).control.has side.presence := by
  cases side with
  | discretionary =>
      have hstored : (assemble parts).dacl.isSynthetic = false := by
        rw [assemble]
        cases (parts.findSome? (SectionText.list? .discretionary)).bind ListText.list? <;> rfl
      rw [isNull, hstored, Bool.false_or]
      rfl
  | system => rfl

/-- **What is left of a list that was read from a text is what its section says.** -/
theorem mem_textFlags_assemble (parts : List SectionText) (side : ListSide) (flag : ControlFlag) :
    flag ∈ (assemble parts).textFlags .all side
      ↔ flag ∈ sectionFlags side (parts.findSome? (SectionText.list? side)) := by
  -- A section that says anything about a list says that it is present, so the flags of a list that
  -- was read are those of its section.
  have hpresence : (assemble parts).control.has side.presence = true
      ↔ side.presence ∈ sectionFlags side (parts.findSome? (SectionText.list? side)) :=
    has_assemble parts (List.mem_cons_self ..)
  rw [textFlags, if_pos (Selection.has_all _), List.mem_append, List.mem_filter]
  constructor
  · rintro (hmem | ⟨hmark, hhas⟩)
    · split at hmem
      · rename_i hwrites
        rw [List.mem_singleton.1 hmem]
        rw [writesSection, Bool.or_eq_true, Bool.or_eq_true, isNull_assemble, hpresence,
          List.any_eq_true] at hwrites
        rcases hwrites with (hsome | hmem) | ⟨mark, hmark, hhas⟩
        · rw [storedList_assemble, ← bind_readSection] at hsome
          exact (standsFor_readSection side _).presence hsome
        · exact hmem
        · exact presence_mem ((has_assemble parts (List.mem_cons_of_mem _ hmark)).1 hhas)
      · exact absurd hmem List.not_mem_nil
    · exact (has_assemble parts (List.mem_cons_of_mem _ hmark)).1 hhas
  · intro hmem
    rcases List.mem_cons.1 (mem_flags_of_mem_sectionFlags hmem) with rfl | hmark
    · have hwrites : writesSection side (assemble parts).control
          ((assemble parts).storedList side) ((assemble parts).isNull side) = true := by
        rw [writesSection, isNull_assemble, hpresence.2 hmem, Bool.or_true, Bool.true_or]
      rw [if_pos hwrites]
      exact .inl (List.mem_singleton_self _)
    · exact .inr ⟨hmark, (has_assemble parts (List.mem_cons_of_mem _ hmark)).2 hmem⟩

/-- **A descriptor that was read from a text is its own textual form**, and none of its lists is
without entries. -/
theorem textual_of_parse {text : List Char} {d : Descriptor} (h : parse text = .ok d) :
    (∀ side : ListSide, ¬d.HasEmptyList .all side) ∧ d.textual .all = d := by
  obtain ⟨hsacl, hdacl, -⟩ := exists_bodies_of_parse h
  have hlists : ∀ side : ListSide, ∀ list ∈ d.storedList side,
      list.entries ≠ [] ∧ list.textual = list := by
    intro side list hlist
    cases side with
    | discretionary =>
        obtain ⟨body, hbody⟩ := hdacl list (mem_list?_of_mem_stored? hlist)
        exact AccessList.textual_of_parse hbody
    | system =>
        obtain ⟨body, hbody⟩ := hsacl list hlist
        exact AccessList.textual_of_parse hbody
  have hmap : ∀ side : ListSide,
      (d.storedList side).map AccessList.textual = d.storedList side := by
    intro side
    cases hlist : d.storedList side with
    | none => rfl
    | some list => exact congrArg some (hlists side list hlist).2
  obtain ⟨parts, -, -, rfl⟩ := exists_sections_of_parse h
  refine ⟨?_, ?_⟩
  · rintro side ⟨-, list, hlist, hnil⟩
    exact (hlists side list hlist).1 hnil
  · have hcontrol : ((assemble parts).textual .all).control = (assemble parts).control := by
      apply Control.ext_has
      intro flag
      rw [textual, has_ofList, assemble, has_ofList, ← assemble, decide_eq_decide]
      simp only [List.mem_cons, List.mem_append, mem_textFlags_assemble]
    have hdacl : ((assemble parts).textual .all).dacl = (assemble parts).dacl := by
      have hstored : Dacl.ofOption ((assemble parts).storedList .discretionary)
          = (assemble parts).dacl := congrArg Dacl.ofOption (storedList_assemble parts _)
      exact (congrArg Dacl.ofOption (hmap .discretionary)).trans hstored
    have hsacl : ((assemble parts).textual .all).sacl = (assemble parts).sacl := hmap .system
    calc (assemble parts).textual .all
        = { assemble parts with
            control := ((assemble parts).textual .all).control
            sacl := ((assemble parts).textual .all).sacl
            dacl := ((assemble parts).textual .all).dacl } := rfl
      _ = assemble parts := by rw [hcontrol, hsacl, hdacl]

/-- **Reading, writing and reading gives the same descriptor**, and writing it once more gives the
same text. -/
theorem parse_render_of_parse {text written : List Char} {d : Descriptor}
    (hparse : parse text = .ok d) (hrender : d.render .all = .ok written) :
    parse written = .ok d ∧ (parse written >>= fun again => again.render .all) = .ok written := by
  obtain ⟨hfull, htextual⟩ := textual_of_parse hparse
  have hagain : parse written = .ok d := by
    rw [parse_of_render (Reachable.parsed hparse).wellFormed hrender hfull, htextual]
  refine ⟨hagain, ?_⟩
  rw [hagain, Outcome.ok_bind]
  exact hrender

/-- A repeated mark, an object entry without object types, an abbreviation and an authority that
ends in letters: the text changes, and what it is read as does not. -/
theorem parse_render_of_parse_abbreviated : ∃ d : Descriptor,
    parse ("D:AIAI(OA;;RC;;00000000-0000-0000-0000-000000000000;WD)".toList
      ++ "G:S-1-0xABCDEF123456-1".toList) = .ok d ∧
    d.render .all = .ok "G:S-1-0xABCDEF123456-1D:AI(A;;0x20000;;;S-1-1-0)".toList ∧
    parse "G:S-1-0xABCDEF123456-1D:AI(A;;0x20000;;;S-1-1-0)".toList = .ok d := by
  let d : Descriptor :=
    make (Control.ofList [.daclAutoInherited]) none
      (some { authority := 0xABCDEF123456, subAuthorities := [1] }) none
      (some ⟨2, [⟨.none, .common ⟨.allow, false, 0x20000, everyone, []⟩⟩]⟩)
  have hparse : parse ("D:AIAI(OA;;RC;;00000000-0000-0000-0000-000000000000;WD)".toList
      ++ "G:S-1-0xABCDEF123456-1".toList) = .ok d := by decide +kernel
  have hrender : d.render .all
      = .ok "G:S-1-0xABCDEF123456-1D:AI(A;;0x20000;;;S-1-1-0)".toList := by decide +kernel
  exact ⟨d, hparse, hrender, (parse_render_of_parse hparse hrender).1⟩

end Descriptor

end SecurityDescriptor
