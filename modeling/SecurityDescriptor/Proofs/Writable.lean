/-
What can be written of what was read from text.

The token of an entry names a kind with or without object types, and the reader does not keep it to
that: an entry with an object type becomes an object entry and one without becomes a common one,
whatever its token says.  The writer picks the token of the kind that came out.  For entries without
a callback, and for those that allow, both kinds have a token.  A callback entry that denies or
audits has one only as a common entry, so with an object type it is read and cannot be written: it
is mute.

A list or a descriptor with a mute entry cannot be written either, and the first mute entry among
those that would be written is what the error names.  Everything else that was read is written, and
what was written is read as it was.

Main definitions:

* `Entry.isMute` — the entries that are read from text and have none;
* `Entry.Written` — what writing a run of entries comes to;
* `Descriptor.selectedEntries` — the entries that a selection writes, in their order.

Main results:

* `Entry.isMute_iff_of_parse` — the texts that are read as mute entries;
* `Entry.written_of_parse`, `AccessList.written_of_parse`, `Descriptor.written_of_parse` — **what
  was read is written, or its first mute entry is named**;
* `writable_of_parse` — all layers together, with what is read again.
-/

import SecurityDescriptor.Proofs.Descriptor.Text

set_option relaxedAutoImplicit false
set_option autoImplicit false

namespace SecurityDescriptor

/-! ### Kinds with and without a token -/

namespace Kind

/-- The tokens of the two kinds that lose theirs with an object type. -/
def isFragile (token : List Char) : Bool := token == "XD".toList || token == "XU".toList

/-- The codes of these two kinds with an object type. -/
def isMuteCode (code : UInt8) : Bool := code == 0x0C || code == 0x0F

/-- **A kind that was read loses its token exactly if** it is one of the two and gets an object
type. -/
theorem isMuteCode_of_ofToken? {token : List Char} {qualifier : Qualifier} {callback object : Bool}
    (h : ofToken? token = some (standard qualifier callback object)) (limited : Bool) :
    isMuteCode (standard qualifier callback limited).code = (isFragile token && limited) ∧
      (standard qualifier callback limited).token?.isNone
        = isMuteCode (standard qualifier callback limited).code := by
  have hall : ∀ row ∈ tokens, ∀ limited,
      isMuteCode (standard row.2.qualifier row.2.callback limited).code
          = (isFragile row.1.toList && limited) ∧
        (standard row.2.qualifier row.2.callback limited).token?.isNone
          = isMuteCode (standard row.2.qualifier row.2.callback limited).code := by decide
  obtain ⟨row, hrow, hkind⟩ := Option.map_eq_some_iff.1 h
  have htoken := List.find?_some hrow
  have hlimited := hall row (List.mem_of_find?_eq_some hrow) limited
  rwa [hkind, eq_of_beq htoken] at hlimited

end Kind

namespace Entry

/-! ### Entries -/

/-- **The entries that are read from text and have none.** -/
def isMute (entry : Entry) : Bool := Kind.isMuteCode entry.code

/-- **What writing a run of entries comes to**: a text, or the first mute entry among them. -/
inductive Written (entries : List Entry) (result : Except Error (List Char)) : Prop
  | whole (hmute : entries.find? isMute = none) (text : List Char) (h : result = .ok text)
  | refused (entry : Entry) (hmute : entries.find? isMute = some entry)
      (h : result = .error (.unavailable .kindWithoutToken entry.code))

namespace Written

variable {first second : List Entry} {x y : Except Error (List Char)}

theorem of_nil (text : List Char) : Written [] (.ok text) := .whole rfl text rfl

/-- What is written in front comes first, and so does its first mute entry. -/
theorem append (hx : Written first x) (hy : Written second y)
    (join : List Char → List Char → List Char) :
    Written (first ++ second) (x >>= fun front => y.map (join front)) := by
  rcases hx with ⟨hfirst, front, rfl⟩ | ⟨entry, hfirst, rfl⟩
  · rw [Outcome.ok_bind]
    rcases hy with ⟨hsecond, rest, rfl⟩ | ⟨entry, hsecond, rfl⟩
    · refine .whole ?_ (join front rest) rfl
      rw [List.find?_append, hfirst, hsecond]
      rfl
    · refine .refused entry ?_ rfl
      rw [List.find?_append, hfirst, hsecond]
      rfl
  · refine .refused entry ?_ rfl
    rw [List.find?_append, hfirst]
    rfl

theorem map (hx : Written first x) (f : List Char → List Char) : Written first (x.map f) := by
  rcases hx with ⟨hmute, text, rfl⟩ | ⟨entry, hmute, rfl⟩
  · exact .whole hmute (f text) rfl
  · exact .refused entry hmute rfl

end Written

theorem code_bodyOfParts (rule : Rule) (objectType inheritedType : Option Guid) :
    (bodyOfParts rule objectType inheritedType).code
      = (Kind.standard rule.qualifier rule.callback
          (objectType.isSome || inheritedType.isSome)).code := by
  cases objectType <;> cases inheritedType <;> rfl

theorem isObject_ofParts (flags : Flags) (rule : Rule) (objectType inheritedType : Option Guid) :
    isObject ⟨flags, bodyOfParts rule objectType inheritedType⟩
      = (objectType.isSome || inheritedType.isSome) := by
  cases objectType <;> cases inheritedType <;> rfl

theorem render_ofParts (flags : Flags) (rule : Rule) (objectType inheritedType : Option Guid) :
    render ⟨flags, bodyOfParts rule objectType inheritedType⟩
      = renderFields flags rule objectType inheritedType := by
  cases objectType <;> cases inheritedType <;> rfl

/-- **The texts that are read as mute entries**: with a token that is lost, and an object type. -/
theorem isMute_iff_of_parse {text : List Char} {entry : Entry} (h : parse text = .ok entry) :
    entry.isMute = true
      ↔ (∃ token, (text.splitOn ';').head? = some token ∧ Kind.isFragile token = true) ∧
        entry.isObject = true := by
  obtain ⟨flags, rule, objectType, inheritedType, rfl, -, -, -, -, token, object, htoken, hkind⟩ :=
    exists_parts_of_parse h
  obtain ⟨hmute, -⟩ :=
    Kind.isMuteCode_of_ofToken? hkind (objectType.isSome || inheritedType.isSome)
  rw [isMute, code, code_bodyOfParts, hmute, isObject_ofParts, Bool.and_eq_true, htoken]
  simp only [Option.some.injEq, exists_eq_left']

/-- **An entry that was read is written, unless it is mute.** -/
theorem written_of_parse {text : List Char} {entry : Entry} (h : parse text = .ok entry) :
    Written [entry] entry.render := by
  obtain ⟨flags, rule, objectType, inheritedType, rfl, -, -, -, -, token, object, -, hkind⟩ :=
    exists_parts_of_parse h
  obtain ⟨-, htoken⟩ :=
    Kind.isMuteCode_of_ofToken? hkind (objectType.isSome || inheritedType.isSome)
  rw [render_ofParts, renderFields]
  split
  · rename_i hnone
    rw [hnone] at htoken
    refine .refused ⟨flags, bodyOfParts rule objectType inheritedType⟩ ?_ ?_
    · rw [List.find?_singleton, isMute, code, code_bodyOfParts, ← htoken]
      rfl
    · rw [code, code_bodyOfParts]
  · rename_i hsome
    rw [hsome] at htoken
    refine .whole ?_ _ rfl
    rw [List.find?_singleton, isMute, code, code_bodyOfParts, ← htoken]
    rfl

end Entry

/-! ### Lists -/

namespace AccessList

open Entry (Written)

theorem renderEntries_cons (entry : Entry) (entries : List Entry) :
    renderEntries (entry :: entries)
      = entry.render >>= fun text =>
          (renderEntries entries).map fun rest => '(' :: (text ++ ')' :: rest) := by
  rw [renderEntries]
  cases entry.render with
  | error e => rfl
  | ok text => cases renderEntries entries <;> rfl

/-- **A run of entries that were read is written up to its first mute entry.** -/
theorem written_renderEntries {entries : List Entry}
    (h : ∀ entry ∈ entries, ∃ text, Entry.parse text = .ok entry) :
    Written entries (renderEntries entries) := by
  induction entries with
  | nil => exact .of_nil []
  | cons entry entries ih =>
      obtain ⟨text, htext⟩ := h entry (List.mem_cons_self ..)
      rw [renderEntries_cons]
      exact (Entry.written_of_parse htext).append
        (ih fun other hother => h other (List.mem_cons_of_mem _ hother)) _

/-- A list that was read is written, unless it has a mute entry. -/
theorem written_of_parse {text : List Char} {list : AccessList} (h : parse text = .ok list) :
    Written list.entries list.render := by
  obtain ⟨tokens, -, -, hread, -, -⟩ := parse_eq_ok_iff.1 h
  refine written_renderEntries fun entry hentry => ?_
  obtain ⟨token, -, htoken⟩ := Outcome.exists_mem_of_forall₂ hread hentry
  exact ⟨token, htoken⟩

end AccessList

/-! ### Descriptors -/

namespace Descriptor

open Entry (Written)

/-- The entries of a list, if it is selected and stored. -/
def sideEntries (d : Descriptor) (selection : Selection) (side : ListSide) : List Entry :=
  ((selected selection side.name (d.storedList side)).map AccessList.entries).getD []

/-- The entries that are written in a section. -/
def sectionEntries (d : Descriptor) (selection : Selection) : SectionName → List Entry
  | .owner | .group => []
  | .dacl => d.sideEntries selection .discretionary
  | .sacl => d.sideEntries selection .system

/-- **The entries that a selection writes**, in the order in which they are written. -/
def selectedEntries (d : Descriptor) (selection : Selection) : List Entry :=
  SectionName.all.flatMap (d.sectionEntries selection)

theorem written_renderList {list : AccessList} (h : Written list.entries list.render)
    (side : ListSide) (control : Control) (present : Bool) :
    Written list.entries (renderList side control (some list) present) := by
  have hlead : renderList side control (some list) present
      = list.render.map (side.name.letter :: ':' :: ListMark.render side control ++ ·) := by
    rw [renderList]
    cases list.render <;> rfl
  rw [hlead]
  exact h.map _

variable {d : Descriptor} {selection : Selection}

theorem written_principal (which : Principal) :
    Written [] (d.renderSelected selection which.name) := by
  rw [renderSelected_principal]
  exact .of_nil _

theorem written_side {side : ListSide}
    (h : ∀ list ∈ d.storedList side, Written list.entries list.render) :
    Written (d.sideEntries selection side) (d.renderSelected selection side.name) := by
  have hsection : d.renderSection side.name
      = renderList side d.control (d.storedList side) (d.isNull side) := by
    cases side <;> rfl
  rw [sideEntries, selected, renderSelected]
  split
  · rw [hsection]
    cases hlist : d.storedList side with
    | some list => exact written_renderList (h list hlist) side d.control (d.isNull side)
    | none =>
        rw [renderList]
        split
        · exact .of_nil _
        · exact .of_nil _
  · exact .of_nil []

/-- Sections are written up to the first mute entry in them. -/
theorem written_renderSections {names : List SectionName}
    (h : ∀ name, Written (d.sectionEntries selection name) (d.renderSelected selection name)) :
    Written (names.flatMap (d.sectionEntries selection)) (d.renderSections selection names) := by
  induction names with
  | nil => exact .of_nil []
  | cons name names ih =>
      rw [List.flatMap_cons, renderSections_cons]
      exact (h name).append ih _

/-- **A descriptor that was read is written, unless it has a mute entry** that is selected. -/
theorem written_of_parse {text : List Char} (h : parse text = .ok d) (selection : Selection) :
    Written (d.selectedEntries selection) (d.render selection) := by
  obtain ⟨hsacl, hdacl, -⟩ := exists_bodies_of_parse h
  refine written_renderSections fun name => ?_
  cases name with
  | owner => exact written_principal .owner
  | group => exact written_principal .group
  | dacl =>
      refine written_side fun list hlist => ?_
      obtain ⟨body, hbody⟩ := hdacl list (mem_list?_of_mem_stored? hlist)
      exact AccessList.written_of_parse hbody
  | sacl =>
      refine written_side fun list hlist => ?_
      obtain ⟨body, hbody⟩ := hsacl list hlist
      exact AccessList.written_of_parse hbody

/-- What was written of a descriptor that was read is read as what was selected of it. -/
theorem parse_written {text written : List Char} (h : parse text = .ok d)
    (hrender : d.render selection = .ok written) : parse written = .ok (d.textual selection) := by
  obtain ⟨hfull, -⟩ := textual_of_parse h
  refine parse_of_render (Reachable.parsed h).wellFormed hrender fun side hempty => ?_
  obtain ⟨-, hlist⟩ := hempty
  exact hfull side ⟨Selection.has_all _, hlist⟩

end Descriptor

/-- **Everything that is read from text is written, up to the first mute entry.**  A mute entry is
one that was read with the token of a callback entry that denies or audits, and with an object type.
What is written is read as it was, and so it is when only some sections of a descriptor are
selected, for what was selected. -/
theorem writable_of_parse (text : List Char) :
    (∀ entry : Entry, Entry.parse text = .ok entry →
      Entry.Written [entry] entry.render ∧
      (∀ written, entry.render = .ok written → Entry.parse written = .ok entry) ∧
      (entry.isMute = true
        ↔ (∃ token, (text.splitOn ';').head? = some token ∧ Kind.isFragile token = true) ∧
          entry.isObject = true)) ∧
    (∀ list : AccessList, AccessList.parse text = .ok list →
      Entry.Written list.entries list.render ∧
      ∀ written, list.render = .ok written → AccessList.parse written = .ok list) ∧
    ∀ d : Descriptor, Descriptor.parse text = .ok d →
      (∀ selection, Entry.Written (d.selectedEntries selection) (d.render selection) ∧
        ∀ written, d.render selection = .ok written →
          Descriptor.parse written = .ok (d.textual selection)) ∧
      d.textual .all = d := by
  refine ⟨?_, ?_, ?_⟩
  · intro entry h
    refine ⟨Entry.written_of_parse h, fun written hwritten => ?_, Entry.isMute_iff_of_parse h⟩
    rw [Entry.parse_render hwritten, Entry.textual_of_parse h]
  · intro list h
    obtain ⟨hne, htextual⟩ := AccessList.textual_of_parse h
    refine ⟨AccessList.written_of_parse h, fun written hwritten => ?_⟩
    rw [AccessList.parse_render hne (AccessList.Reachable.parsed h).size_le hwritten, htextual]
  · intro d h
    exact ⟨fun selection => ⟨Descriptor.written_of_parse h selection,
      fun written hwritten => Descriptor.parse_written h hwritten⟩,
      (Descriptor.textual_of_parse h).2⟩

/-- An entry for everyone, with the class of users as its object type. -/
def userEntry (qualifier : Qualifier) : Entry :=
  ⟨.none, .object ⟨qualifier, true, 0x10000000, Descriptor.everyone, []⟩
    ⟨some ⟨0xbf967aba, 0x0de6, 0x11d0, 0xa285_00aa003049e2⟩, none, 0⟩⟩

/-- A descriptor with a callback entry that denies and is not limited, and with one that audits and
is. -/
def halfMute : Descriptor :=
  .make .none none none (some ⟨4, [userEntry .audit]⟩)
    (some ⟨2, [⟨.none, .common ⟨.deny, true, 0x10000000, Descriptor.everyone, []⟩⟩]⟩)

/-- The discretionary list of such a descriptor is written and read again; the system list is not
written, and with it the descriptor is not. -/
theorem writable_of_parse_halfMute :
    Descriptor.parse ("D:(XD;;GA;;;WD)".toList ++
        "S:(XU;;GA;bf967aba-0de6-11d0-a285-00aa003049e2;;WD)".toList) = .ok halfMute ∧
      halfMute.render .all = .error (.unavailable .kindWithoutToken 0x0F) ∧
      Descriptor.parse "D:(XD;;0x10000000;;;S-1-1-0)".toList = .ok (halfMute.textual ⟨2⟩) := by
  have hparse : Descriptor.parse ("D:(XD;;GA;;;WD)".toList ++
      "S:(XU;;GA;bf967aba-0de6-11d0-a285-00aa003049e2;;WD)".toList) = .ok halfMute := by
    decide +kernel
  have hwritten : halfMute.render ⟨2⟩ = .ok "D:(XD;;0x10000000;;;S-1-1-0)".toList := by
    decide +kernel
  obtain ⟨hselected, -⟩ := (writable_of_parse _).2.2 halfMute hparse
  refine ⟨hparse, ?_, (hselected ⟨2⟩).2 _ hwritten⟩
  rcases (hselected .all).1 with ⟨hmute, -⟩ | ⟨entry, hmute, hrender⟩
  · cases hmute
  · cases hmute
    exact hrender

/-- **Not everything that is read from text can be written**: a callback entry that denies, with an
object type, neither by itself nor in a list or in a descriptor. -/
theorem not_writable_of_parse :
    (¬∀ (text : List Char) (entry : Entry), Entry.parse text = .ok entry →
      ∃ written, entry.render = .ok written) ∧
    (¬∀ (text : List Char) (list : AccessList), AccessList.parse text = .ok list →
      ∃ written, list.render = .ok written) ∧
    ¬∀ (text : List Char) (d : Descriptor), Descriptor.parse text = .ok d →
      ∃ written, d.render .all = .ok written := by
  refine ⟨fun h => ?_, fun h => ?_, fun h => ?_⟩
  · obtain ⟨written, hwritten⟩ := h
      "XD;;GA;bf967aba-0de6-11d0-a285-00aa003049e2;;WD".toList (userEntry .deny) (by decide +kernel)
    cases hwritten
  · obtain ⟨written, hwritten⟩ := h
      "(XD;;GA;bf967aba-0de6-11d0-a285-00aa003049e2;;WD)".toList ⟨4, [userEntry .deny]⟩
      (by decide +kernel)
    cases hwritten
  · obtain ⟨written, hwritten⟩ := h
      "D:(XD;;GA;bf967aba-0de6-11d0-a285-00aa003049e2;;WD)".toList
      (.make .none none none none (some ⟨4, [userEntry .deny]⟩)) (by decide +kernel)
    cases hwritten

end SecurityDescriptor
