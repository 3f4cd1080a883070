/-
**What is written for a list, and what it is read as.**

The section of a list carries the marks that the control word asks for and then the entries, or the
words for a null list.  Read back, the marks set the flags that they were written for, and the
entries are the textual form of the list.  A list without entries is the one thing that is written
and not read back: nothing stands behind its marks, neither entries nor the words for a null list,
and so no reader takes it for a null list.

Main definitions:

* `ListMark.marked` — the marks that a control word asks for;
* `Descriptor.writesSection` — whether a section is written for a list;
* `Descriptor.readList` — what the section of a list is read as;
* `Descriptor.listContent` — what is written for a list.

Main results:

* `ListMark.filterMap_marked` — reading the marks sets the flags that they were written for;
* `Descriptor.parseSection_listContent_empty` — of a list without entries only the marks are
  written, and these are refused;
* `Descriptor.parseSection_listContent` — **whatever else is written for a list is read**.
-/

import SecurityDescriptor.Proofs.Descriptor.Grammar

set_option relaxedAutoImplicit false
set_option autoImplicit false

namespace SecurityDescriptor

/-! ### Marks that are written -/

/-- The flags that are written as marks of a list. -/
def ListSide.markFlags : ListSide → List ControlFlag
  | discretionary => [.daclProtected, .daclAutoInheritRequired, .daclAutoInherited]
  | system => [.saclProtected, .saclAutoInheritRequired, .saclAutoInherited]

/-- The flags that the section of a list can set. -/
def ListSide.flags (side : ListSide) : List ControlFlag := side.presence :: side.markFlags

theorem ListSide.selfRelative_notMem_flags (side : ListSide) : .selfRelative ∉ side.flags := by
  cases side <;> decide

theorem ListSide.resourceManagerValid_notMem_flags (side : ListSide) :
    .resourceManagerValid ∉ side.flags := by
  cases side <;> decide

/-- No flag is set by the sections of both lists. -/
theorem ListSide.eq_of_mem_flags {a b : ListSide} {flag : ControlFlag} (ha : flag ∈ a.flags)
    (hb : flag ∈ b.flags) : a = b := by
  have hdisjoint : ∀ flag ∈ discretionary.flags, flag ∉ system.flags := by decide
  cases a with
  | discretionary =>
      cases b with
      | discretionary => rfl
      | system => exact absurd hb (hdisjoint flag ha)
  | system =>
      cases b with
      | discretionary => exact absurd ha (hdisjoint flag hb)
      | system => rfl

namespace ListMark

/-- Whether a control word asks for a mark. -/
def isMarked (side : ListSide) (control : Control) (mark : ListMark) : Bool :=
  (mark.flag? side).any control.has

/-- The marks that a control word asks for, in the order in which they are written. -/
def marked (side : ListSide) (control : Control) : List ListMark :=
  (tokens.map Prod.snd).filter (isMarked side control)

/-- What is written is the words of the marks that the control word asks for. -/
theorem render_eq (side : ListSide) (control : Control) :
    render side control = (marked side control).flatMap word := by
  have hrun := Token.run_flatMap_ite (fun row (h : row ∈ tokens) => h) (isMarked side control)
  rw [marked, ← run_iff.1 hrun, render]
  congr 1
  funext row
  rw [isMarked]
  cases row.2.flag? side with
  | none => rfl
  | some flag => rfl

theorem noAccessControl_notMem_marked (side : ListSide) (control : Control) :
    .noAccessControl ∉ marked side control := by
  intro hmem
  have hmarked := (List.mem_filter.1 hmem).2
  cases side <;> cases hmarked

theorem filterMap_flag? (side : ListSide) :
    (tokens.map Prod.snd).filterMap (flag? side) = side.markFlags := by
  cases side <;> rfl

/-- Reading the marks sets the flags that they were written for. -/
theorem filterMap_marked (side : ListSide) (control : Control) :
    (marked side control).filterMap (flag? side) = side.markFlags.filter control.has := by
  rw [marked, List.filterMap_filter, ← filterMap_flag? side, List.filter_filterMap]
  congr 1
  funext mark
  rw [isMarked]
  cases flag? side mark with
  | none => rfl
  | some flag => simp [Option.filter]

theorem marked_eq_nil_iff (side : ListSide) (control : Control) :
    marked side control = [] ↔ side.markFlags.filter control.has = [] := by
  rw [← filterMap_marked, List.filterMap_eq_nil_iff]
  constructor
  · intro hnil mark hmark
    rw [hnil] at hmark
    cases hmark
  · intro hnone
    rw [List.eq_nil_iff_forall_not_mem]
    intro mark hmark
    have hmarked := (List.mem_filter.1 hmark).2
    rw [isMarked, hnone mark hmark] at hmarked
    cases hmarked

/-- Nothing is written exactly if no flag asks for a mark. -/
theorem isEmpty_render (side : ListSide) (control : Control) :
    (render side control).isEmpty = !side.markFlags.any control.has := by
  have hword : ∀ mark : ListMark, word mark ≠ [] := by
    intro mark
    cases mark <;> decide
  have hwords : (marked side control).flatMap word = [] ↔ marked side control = [] := by
    rw [List.flatMap_eq_nil_iff, List.eq_nil_iff_forall_not_mem]
    exact forall_congr' fun mark => imp_congr_right fun _ => iff_false_intro (hword mark)
  rw [Bool.eq_iff_iff, List.isEmpty_iff, render_eq, hwords, marked_eq_nil_iff,
    List.filter_eq_nil_iff]
  simp

end ListMark

namespace Descriptor

/-! ### The section of a list -/

/-- Whether a section is written for a list: it is there, or it is missing although it is marked as
present, or there are marks to write. -/
def writesSection (side : ListSide) (control : Control) (list : Option AccessList)
    (present : Bool) : Bool :=
  list.isSome || present || side.markFlags.any control.has

/-- **What the section of a list is read as**: the flags of its marks, and the textual form of the
list if there is one. -/
def readList (side : ListSide) (control : Control) (list : Option AccessList) (present : Bool) :
    Option ListSection :=
  if writesSection side control list present then
    some ⟨Control.ofList (side.presence :: side.markFlags.filter control.has),
      list.map AccessList.textual⟩
  else none

/-- Marks set their flags and that of the presence of the list. -/
theorem listControl_eq {side : ListSide} {marks : List ListMark} {flags : List ControlFlag}
    (h : marks.filterMap (ListMark.flag? side) = flags) :
    listControl side marks = Control.ofList (side.presence :: flags) := by
  apply Control.ext_has
  intro flag
  rw [listControl, ListMark.control, h, Control.has_put, has_ofList, has_ofList]
  by_cases hpresence : side.presence = flag
  · simp [hpresence]
  · simp [hpresence, Ne.symm hpresence]

/-- Nothing behind the marks. -/
theorem nil_cases : ([] : List Char) = [] ∨ ∃ rest, ([] : List Char) = '(' :: rest := .inl rfl

/-- Marks without entries and without the words for a null list are refused. -/
theorem parseListSection_marked (side : ListSide) (control : Control) :
    parseListSection side ((ListMark.marked side control).flatMap ListMark.word)
      = .error (.descriptor .listMissing
          (Text.width ((ListMark.marked side control).flatMap ListMark.word))) := by
  have hread := parseListSection_words side (ListMark.marked side control) nil_cases
  rw [List.append_nil, if_neg (ListMark.noAccessControl_notMem_marked side control),
    if_pos rfl] at hread
  exact hread

/-- Marks and the words for a null list are read as a null list. -/
theorem parseListSection_marked_null (side : ListSide) (control : Control) :
    parseListSection side ((ListMark.marked side control ++ [ListMark.noAccessControl]).flatMap
        ListMark.word)
      = .ok ⟨Control.ofList (side.presence :: side.markFlags.filter control.has), none⟩ := by
  have hmem : .noAccessControl ∈ ListMark.marked side control ++ [ListMark.noAccessControl] :=
    List.mem_append_right _ (List.mem_singleton_self _)
  have hflags : (ListMark.marked side control ++ [ListMark.noAccessControl]).filterMap
      (ListMark.flag? side) = side.markFlags.filter control.has := by
    rw [List.filterMap_append, ListMark.filterMap_marked]
    cases side <;> exact List.append_nil _
  have hread := parseListSection_words side
    (ListMark.marked side control ++ [ListMark.noAccessControl]) nil_cases
  rw [List.append_nil, if_pos hmem, if_pos rfl, listControl_eq hflags] at hread
  exact hread

/-- Marks and entries are read as the textual form of the list. -/
theorem parseListSection_marked_entries {side : ListSide} (control : Control) {list : AccessList}
    {text : List Char} (hne : list.entries ≠ []) (hsize : list.size ≤ AccessList.maxSize)
    (h : list.render = .ok text) :
    parseListSection side ((ListMark.marked side control).flatMap ListMark.word ++ text)
      = .ok ⟨Control.ofList (side.presence :: side.markFlags.filter control.has),
          some list.textual⟩ := by
  have hparse := AccessList.parse_render hne hsize h
  obtain ⟨tokens, hwritten, rfl⟩ := AccessList.renderEntries_eq_ok_iff.1 h
  have hbody := ListText.body_cases ⟨[], tokens, []⟩
  have hsome : ¬tokens.flatMap AccessList.enclose = [] := by
    intro hnil
    have htokens : tokens = [] := (ListText.body_eq_nil_iff ⟨[], tokens, []⟩).1 hnil
    rw [htokens] at hwritten
    exact hne (List.forall₂_nil_right_iff.1 hwritten)
  have hread := parseListSection_words side (ListMark.marked side control) hbody
  rw [if_neg (ListMark.noAccessControl_notMem_marked side control), ListText.body, if_neg hsome,
    hparse, listControl_eq (ListMark.filterMap_marked side control)] at hread
  exact hread

theorem enclosed_words (marks : List ListMark) : Text.Enclosed (marks.flatMap ListMark.word) :=
  Text.foldlM_nest_of_ne (fun _ hc => ListMark.ne_of_mem_words hc) 0

theorem enclosed_of_renderEntries {entries : List Entry} {text : List Char}
    (h : AccessList.renderEntries entries = .ok text) : Text.Enclosed text := by
  obtain ⟨tokens, hwritten, rfl⟩ := AccessList.renderEntries_eq_ok_iff.1 h
  refine ListText.enclosed_flatMap_enclose ?_
  intro token htoken
  obtain ⟨entry, -, hentry⟩ := Outcome.exists_mem_of_forall₂ hwritten htoken
  exact Entry.text_of_render hentry

/-! ### What is written for a list -/

/-- **What is written for a list**: its marks and its entries, or its marks and the words for a null
list, or nothing at all. -/
def listContent (side : ListSide) (control : Control) (list : Option AccessList) (present : Bool) :
    Except Error (Option (List Char)) :=
  match list with
  | some list =>
      list.render.map fun entries =>
        some ((ListMark.marked side control).flatMap ListMark.word ++ entries)
  | none =>
      .ok (if writesSection side control none present then
        some ((ListMark.marked side control ++ [ListMark.noAccessControl]).flatMap ListMark.word)
      else none)

theorem renderList_eq (side : ListSide) (control : Control) (list : Option AccessList)
    (present : Bool) :
    renderList side control list present
      = (listContent side control list present).map (Sections.optionText side.name) := by
  unfold renderList listContent
  cases list with
  | some list =>
      dsimp only
      rw [ListMark.render_eq]
      cases list.render <;> rfl
  | none =>
      have hwrites : (present || !(ListMark.render side control).isEmpty)
          = writesSection side control none present := by
        rw [ListMark.isEmpty_render, Bool.not_not, writesSection, Option.isSome_none, Bool.false_or]
      have hnull : ListMark.render side control ++ ListMark.noAccessControlToken.toList
          = (ListMark.marked side control ++ [ListMark.noAccessControl]).flatMap
              ListMark.word := by
        rw [ListMark.render_eq, List.flatMap_append]
        exact congrArg _ (List.flatMap_singleton ..).symm
      dsimp only
      rw [hwrites, List.cons_append, List.cons_append, hnull]
      cases writesSection side control none present <;> rfl

/-- What is written for a list is closed. -/
theorem enclosed_of_listContent {side : ListSide} {control : Control} {list : Option AccessList}
    {present : Bool} {content : Option (List Char)}
    (h : listContent side control list present = .ok content) :
    ∀ c ∈ content, Text.Enclosed c := by
  intro c hc
  cases list with
  | some list =>
      obtain ⟨entries, hentries, rfl⟩ := Outcome.map_eq_ok_iff.1 h
      cases hc
      exact (enclosed_words _).append (enclosed_of_renderEntries hentries)
  | none =>
      cases h
      split at hc
      · cases hc
        exact enclosed_words _
      · cases hc

/-- **Of a list without entries only the marks are written**, and these are refused. -/
theorem parseSection_listContent_empty {side : ListSide} {control : Control} {list : AccessList}
    {present : Bool} {content : Option (List Char)} (hnil : list.entries = [])
    (h : listContent side control (some list) present = .ok content) :
    parseSection (parseListSection side) content = .error (.descriptor .listMissing
      (Text.width ((ListMark.marked side control).flatMap ListMark.word))) := by
  obtain ⟨entries, hentries, rfl⟩ := Outcome.map_eq_ok_iff.1 h
  have hnone : entries = [] := by
    rw [AccessList.render, hnil] at hentries
    exact (Except.ok.inj hentries).symm
  rw [parseSection, hnone, List.append_nil, parseListSection_marked, Outcome.error_bind]

/-- **Whatever else is written for a list is read** as the section of the list. -/
theorem parseSection_listContent {side : ListSide} {control : Control} {list : Option AccessList}
    {present : Bool} {content : Option (List Char)}
    (hsize : ∀ l ∈ list, l.size ≤ AccessList.maxSize) (hne : ∀ l ∈ list, l.entries ≠ [])
    (h : listContent side control list present = .ok content) :
    parseSection (parseListSection side) content = .ok (readList side control list present) := by
  cases list with
  | some list =>
      obtain ⟨entries, hentries, rfl⟩ := Outcome.map_eq_ok_iff.1 h
      have hwrites : writesSection side control (some list) present = true := by
        rw [writesSection, Option.isSome_some, Bool.true_or, Bool.true_or]
      rw [parseSection,
        parseListSection_marked_entries control (hne list rfl) (hsize list rfl) hentries,
        Outcome.ok_bind, readList, if_pos hwrites]
      rfl
  | none =>
      cases h
      rw [readList]
      split
      · rw [parseSection, parseListSection_marked_null, Outcome.ok_bind]
        rfl
      · rfl

end Descriptor

end SecurityDescriptor
