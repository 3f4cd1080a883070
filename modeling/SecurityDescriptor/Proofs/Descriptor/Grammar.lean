/-
**The texts of descriptors are exactly the sentences of a grammar.**

A descriptor text is a run of sections with different letters.  The content of an owner or group
section is an identifier, that of a list section is marks and entries.  Every accepted content is
closed, so the reader of sections finds exactly the sections that the text was put together from,
in the order in which they stand; what is read from them is put together by name, and the order is
forgotten.

Main definitions:

* `SectionText`, `SectionText.IsGrammatical` — a section taken apart, and what it takes to be
  accepted;
* `Descriptor.joinSections`, `Descriptor.IsGrammatical` — the text of a run of sections, and the
  runs that are accepted;
* `Descriptor.assemble` — the descriptor that is put together from sections;
* `Descriptor.StandsFor` — the control flags that what was read of a list stands for.

Main results:

* `Descriptor.parse_of_sections` — a text is read as what its sections are read as;
* `Descriptor.parse_joinSections` — **a grammatical run is read as what is assembled from it**;
* `Descriptor.exists_sections_of_parse` — whatever is accepted is a grammatical run;
* `Descriptor.joinSections_inj` — a text is a grammatical run in one way;
* `Descriptor.assemble_perm` — the order of the sections does not matter;
* `Descriptor.parse_iff_grammar` — **the grammar of descriptor texts**.
-/

import Mathlib.Data.List.Nodup
import SecurityDescriptor.Proofs.Descriptor.ListSection
import SecurityDescriptor.Proofs.Descriptor.Reachable
import SecurityDescriptor.Proofs.Sid.Text

set_option relaxedAutoImplicit false
set_option autoImplicit false

namespace SecurityDescriptor

/-! ### Sections taken apart -/

/-- The two principals of a descriptor. -/
inductive Principal
  | owner
  | group
  deriving DecidableEq, Repr

/-- The section of a principal. -/
def Principal.name : Principal → SectionName
  | owner => .owner
  | group => .group

/-- **A section of a descriptor text, taken apart**: an identifier with its text, or a list
section. -/
inductive SectionText
  | principal (which : Principal) (text : List Char) (sid : Sid)
  | list (side : ListSide) (content : ListText)

namespace SectionText

/-- The name of a section. -/
def name : SectionText → SectionName
  | principal which _ _ => which.name
  | list side _ => side.name

/-- What stands behind the colon. -/
def content : SectionText → List Char
  | principal _ text _ => text
  | list _ l => l.text

/-- **What it takes to be accepted**: an identifier is accepted as such, and a list section is
grammatical. -/
def IsGrammatical : SectionText → Prop
  | principal _ text sid => Sid.parse text = .ok sid
  | list _ l => l.IsGrammatical

/-- The text of a section. -/
def text (part : SectionText) : List Char := part.name.letter :: ':' :: part.content

/-- The name of a section and what stands behind the colon. -/
def toSection (part : SectionText) : Sections.Section := (part.name, part.content)

/-- The identifier in a section of the given principal. -/
def sid? (which : Principal) : SectionText → Option Sid
  | principal other _ sid => if other = which then some sid else none
  | list _ _ => none

/-- What stands in a section of the given list. -/
def list? (side : ListSide) : SectionText → Option ListText
  | principal _ _ _ => none
  | list other l => if other = side then some l else none

theorem sid?_eq_some_iff {which : Principal} {part : SectionText} {sid : Sid} :
    part.sid? which = some sid ↔ ∃ text, part = principal which text sid := by
  cases part with
  | principal other text sid' =>
      by_cases hsame : other = which
      · simp [sid?, hsame]
      · simp [sid?, hsame]
  | list side l => simp [sid?]

theorem list?_eq_some_iff {side : ListSide} {part : SectionText} {l : ListText} :
    part.list? side = some l ↔ part = list side l := by
  cases part with
  | principal which text sid => simp [list?]
  | list other l' =>
      by_cases hsame : other = side
      · simp [list?, hsame]
      · simp [list?, hsame]

theorem exists_sid?_of_name {which : Principal} {part : SectionText} (h : part.name = which.name) :
    ∃ sid, part.sid? which = some sid := by
  cases part with
  | principal other text sid =>
      have hsame : other = which := by
        cases other <;> cases which <;> first | rfl | cases h
      exact ⟨sid, if_pos hsame⟩
  | list side l => cases side <;> cases which <;> cases h

theorem exists_list?_of_name {side : ListSide} {part : SectionText} (h : part.name = side.name) :
    ∃ l, part.list? side = some l := by
  cases part with
  | principal which text sid => cases which <;> cases side <;> cases h
  | list other l =>
      have hsame : other = side := by
        cases other <;> cases side <;> first | rfl | cases h
      exact ⟨l, if_pos hsame⟩

/-- An accepted section is closed. -/
theorem IsGrammatical.enclosed {part : SectionText} (h : part.IsGrammatical) :
    Text.Enclosed part.content := by
  cases part with
  | principal which text sid => exact (Sid.isPlain_of_parse h).enclosed
  | list side l => exact ListText.IsGrammatical.enclosed h

/-- A section is known by its name and its text. -/
theorem eq_of_toSection {a b : SectionText} (ha : a.IsGrammatical) (hb : b.IsGrammatical)
    (h : a.toSection = b.toSection) : a = b := by
  have hname : b.name = a.name := (congrArg Prod.fst h).symm
  have hcontent : a.content = b.content := congrArg Prod.snd h
  cases a with
  | principal which text sid =>
      obtain ⟨sid', hsid⟩ := exists_sid?_of_name hname
      obtain ⟨text', rfl⟩ := sid?_eq_some_iff.1 hsid
      have htext : text = text' := hcontent
      subst htext
      have hsame : sid = sid' := Except.ok.inj (Eq.trans (Eq.symm ha) hb)
      rw [hsame]
  | list side l =>
      obtain ⟨l', hlist⟩ := exists_list?_of_name hname
      obtain rfl := list?_eq_some_iff.1 hlist
      rw [ListText.unique ha hb hcontent]

end SectionText

namespace Descriptor

/-! ### Runs of sections -/

/-- The text of a run of sections. -/
def joinSections (parts : List SectionText) : List Char := parts.flatMap SectionText.text

/-- **The runs that are accepted**: their sections are accepted and have different names. -/
structure IsGrammatical (parts : List SectionText) : Prop where
  distinct : (parts.map SectionText.name).Nodup
  parts : ∀ part ∈ parts, part.IsGrammatical

/-- The control flags that a list section stands for: the list is present, or missing although it is
marked as present, and the marks set their flags. -/
def listFlags (side : ListSide) (list : ListText) : List ControlFlag :=
  side.presence :: list.marks.filterMap (ListMark.flag? side)

/-- The control flags that a list section stands for, if there is one. -/
def sectionFlags (side : ListSide) (list : Option ListText) : List ControlFlag :=
  list.toList.flatMap (listFlags side)

/-- **The descriptor that is put together from sections.** -/
def assemble (parts : List SectionText) : Descriptor :=
  let dacl := parts.findSome? (SectionText.list? .discretionary)
  let sacl := parts.findSome? (SectionText.list? .system)
  { control := Control.ofList
      (.selfRelative :: (sectionFlags .discretionary dacl ++ sectionFlags .system sacl))
    owner := parts.findSome? (SectionText.sid? .owner)
    group := parts.findSome? (SectionText.sid? .group)
    sacl := sacl.bind ListText.list?
    dacl := .ofOption (dacl.bind ListText.list?)
    resourceManager := none }

theorem joinSections_eq (parts : List SectionText) :
    joinSections parts = (parts.map SectionText.toSection).flatMap Sections.sectionText := by
  rw [joinSections, List.flatMap_map]
  rfl

/-- Names are different, so what is found in a section of a given name is in the only one. -/
theorem findSome?_eq_some_iff {α : Type} {parts : List SectionText} (h : IsGrammatical parts)
    {name : SectionName} {value? : SectionText → Option α}
    (hname : ∀ part a, value? part = some a → part.name = name) {a : α} :
    parts.findSome? value? = some a ↔ ∃ part ∈ parts, value? part = some a := by
  constructor
  · intro hfound
    exact List.exists_of_findSome?_eq_some hfound
  · rintro ⟨part, hpart, ha⟩
    cases hfound : parts.findSome? value? with
    | none =>
        rw [List.findSome?_eq_none_iff.1 hfound part hpart] at ha
        cases ha
    | some b =>
        obtain ⟨other, hother, hb⟩ := List.exists_of_findSome?_eq_some hfound
        have hsame : other = part := List.inj_on_of_nodup_map h.distinct hother hpart
          ((hname other b hb).trans (hname part a ha).symm)
        rw [hsame, ha] at hb
        exact hb.symm

/-! ### Control flags -/

theorem has_foldl_put (flags : List ControlFlag) (control : Control) (flag : ControlFlag) :
    (flags.foldl (fun control flag => control.put flag true) control).has flag
      = (control.has flag || decide (flag ∈ flags)) := by
  induction flags generalizing control with
  | nil => simp
  | cons head flags ih =>
      rw [List.foldl_cons, ih, Control.has_put]
      by_cases hhead : head = flag
      · simp [hhead]
      · simp [hhead, Ne.symm hhead]

/-- The flags of a word that is put together from flags. -/
theorem has_ofList (flags : List ControlFlag) (flag : ControlFlag) :
    (Control.ofList flags).has flag = decide (flag ∈ flags) := by
  rw [Control.ofList, has_foldl_put, Control.has_none, Bool.false_or]

/-- **What was read of a list stands for flags**: its control flags are these, among them that of
the presence of the list if there is one, and not that of the resource manager. -/
structure StandsFor (side : ListSide) (parsed : Option ListSection) (flags : List ControlFlag) :
    Prop where
  has : ∀ flag, (sectionControl parsed).has flag = decide (flag ∈ flags)
  presence : (parsed.bind ListSection.list).isSome = true → side.presence ∈ flags
  noManager : .resourceManagerValid ∉ flags

/-- The descriptor with the given principals and lists, and the control flags of the lists. -/
def ofParts (principal : Principal → Option Sid) (list : ListSide → Option ListSection)
    (control : Control) : Descriptor where
  control := control
  owner := principal .owner
  group := principal .group
  sacl := (list .system).bind ListSection.list
  dacl := .ofOption ((list .discretionary).bind ListSection.list)
  resourceManager := none

/-- The control flags that were read are settled to those that they stand for. -/
theorem settledControl_ofParts (principal : Principal → Option Sid)
    {list : ListSide → Option ListSection} {flags : ListSide → List ControlFlag}
    (h : ∀ side, StandsFor side (list side) (flags side)) :
    settledControl (ofParts principal list
        ((sectionControl (list .discretionary)).union (sectionControl (list .system))))
      = Control.ofList (.selfRelative :: (flags .discretionary ++ flags .system)) := by
  apply Control.ext_has
  intro flag
  rw [has_settledControl, has_ofList]
  simp only [ofParts, Control.has_union, (h .discretionary).has, (h .system).has, List.mem_cons,
    List.mem_append]
  cases flag with
  | selfRelative => simp
  | resourceManagerValid => simp [(h .discretionary).noManager, (h .system).noManager]
  | saclPresent =>
      cases hsome : ((list .system).bind ListSection.list).isSome with
      | false => simp
      | true =>
          have hmem : .saclPresent ∈ flags .system := (h .system).presence hsome
          simp [hmem]
  | daclPresent =>
      cases hdacl : (list .discretionary).bind ListSection.list with
      | none => simp [Dacl.ofOption, daclFlag]
      | some dacl =>
          have hmem : .daclPresent ∈ flags .discretionary := by
            refine (h .discretionary).presence ?_
            rw [hdacl]
            rfl
          simp [Dacl.ofOption, daclFlag, hmem]
  | _ => simp

/-- What a list section, if there is one, is read as. -/
def readSection (side : ListSide) (list : Option ListText) : Option ListSection :=
  list.map fun l => ⟨listControl side l.marks, l.list?⟩

theorem standsFor_readSection (side : ListSide) (list : Option ListText) :
    StandsFor side (readSection side list) (sectionFlags side list) := by
  cases list with
  | none =>
      refine ⟨?_, ?_, List.not_mem_nil⟩
      · intro flag
        simp [readSection, sectionControl, sectionFlags]
      · intro hsome
        cases hsome
  | some l =>
      have hflags : sectionFlags side (some l)
          = side.presence :: l.marks.filterMap (ListMark.flag? side) :=
        List.flatMap_singleton ..
      rw [hflags]
      refine ⟨?_, ?_, ?_⟩
      · intro flag
        simp only [readSection, Option.map_some, sectionControl, listControl, Control.has_put,
          ListMark.control, has_ofList, List.mem_cons]
        by_cases hpresent : side.presence = flag
        · simp [hpresent]
        · simp [hpresent, Ne.symm hpresent]
      · exact fun _ => List.mem_cons_self ..
      · intro hmem
        rcases List.mem_cons.1 hmem with hpresence | hmark
        · cases side <;> cases hpresence
        · obtain ⟨mark, -, hmark⟩ := List.mem_filterMap.1 hmark
          cases side <;> cases mark <;> cases hmark

theorem bind_readSection (side : ListSide) (list : Option ListText) :
    (readSection side list).bind ListSection.list = list.bind ListText.list? := by
  cases list <;> rfl

/-! ### Reading a run of sections -/

/-- A section of a run is found by its name. -/
theorem parseSection_eq {α : Type} {parseContent : List Char → Except Error α}
    {parts : List SectionText} (h : IsGrammatical parts) {sections : Sections}
    (hdescribes : sections.Describes (parts.map SectionText.toSection)) {name : SectionName}
    {value? : SectionText → Option α}
    (hname : ∀ part a, value? part = some a → part.name = name)
    (htotal : ∀ part, part.name = name → ∃ a, value? part = some a)
    (hread : ∀ part ∈ parts, ∀ a, value? part = some a → parseContent part.content = .ok a) :
    parseSection parseContent (sections.get name) = .ok (parts.findSome? value?) := by
  cases hget : sections.get name with
  | none =>
      have hnone : parts.findSome? value? = none := by
        rw [List.findSome?_eq_none_iff]
        intro part hpart
        cases ha : value? part with
        | none => rfl
        | some a =>
            have hmem : (name, part.content) ∈ parts.map SectionText.toSection := by
              rw [← hname part a ha]
              exact List.mem_map_of_mem hpart
            rw [(hdescribes name part.content).2 hmem] at hget
            cases hget
      rw [hnone, parseSection]
  | some content =>
      obtain ⟨part, hpart, hsection⟩ := List.mem_map.1 ((hdescribes name content).1 hget)
      cases hsection
      obtain ⟨a, ha⟩ := htotal part rfl
      have hfound : parts.findSome? value? = some a :=
        (findSome?_eq_some_iff h hname).2 ⟨part, hpart, ha⟩
      rw [hfound, parseSection, hread part hpart a ha, Outcome.ok_bind]
      rfl

theorem parsePrincipal_eq_ok_iff {content : List Char} {sid : Sid} :
    parsePrincipal content = .ok sid ↔ Sid.parse content = .ok sid := by
  unfold parsePrincipal
  split
  · rename_i hnil
    subst hnil
    have hempty : Sid.parse [] = .error (.identifier .missingLead 0) := by decide
    rw [hempty]
    constructor
    · intro h
      cases h
    · intro h
      cases h
  · exact Iff.rfl

/-- **A text is read as what its sections are read as**, whatever sections it has. -/
theorem parse_of_sections {text : List Char} {sections : Sections}
    (hcut : Sections.ofText text = .ok sections) {principal : Principal → Option Sid}
    (hprincipal : ∀ which,
      parseSection parsePrincipal (sections.get which.name) = .ok (principal which))
    {list : ListSide → Option ListSection}
    (hlist : ∀ side,
      parseSection (parseListSection side) (sections.get side.name) = .ok (list side))
    {flags : ListSide → List ControlFlag}
    (hflags : ∀ side, StandsFor side (list side) (flags side)) :
    parse text = .ok (ofParts principal list
      (Control.ofList (.selfRelative :: (flags .discretionary ++ flags .system)))) := by
  have howner := hprincipal .owner
  have hgroup := hprincipal .group
  have hdacl := hlist .discretionary
  have hsacl := hlist .system
  simp only [Principal.name, ListSide.name, Sections.get] at howner hgroup hdacl hsacl
  rw [parse, hcut, Outcome.ok_bind, howner, Outcome.ok_bind, hgroup, Outcome.ok_bind, hdacl,
    Outcome.ok_bind, hsacl, Outcome.ok_bind, ← settledControl_ofParts principal hflags]
  rfl

/-- **A grammatical run is read as what is assembled from it.** -/
theorem parse_joinSections {parts : List SectionText} (h : IsGrammatical parts) :
    parse (joinSections parts) = .ok (assemble parts) := by
  have hnodup : ((parts.map SectionText.toSection).map Prod.fst).Nodup := by
    rw [List.map_map]
    exact h.distinct
  have henclosed : ∀ part ∈ parts.map SectionText.toSection, Text.Enclosed part.2 := by
    intro part hpart
    obtain ⟨taken, htaken, rfl⟩ := List.mem_map.1 hpart
    exact (h.parts taken htaken).enclosed
  obtain ⟨sections, hcut, hdescribes⟩ := Sections.exists_ofText_eq_ok hnodup henclosed
  have hprincipal : ∀ which : Principal, parseSection parsePrincipal (sections.get which.name)
      = .ok (parts.findSome? (SectionText.sid? which)) := by
    intro which
    refine parseSection_eq h hdescribes ?_ (fun _ => SectionText.exists_sid?_of_name) ?_
    · intro part sid hsid
      obtain ⟨text, rfl⟩ := SectionText.sid?_eq_some_iff.1 hsid
      rfl
    · intro part hpart sid hsid
      obtain ⟨text, rfl⟩ := SectionText.sid?_eq_some_iff.1 hsid
      exact parsePrincipal_eq_ok_iff.2 (h.parts _ hpart)
  have hlist : ∀ side : ListSide, parseSection (parseListSection side) (sections.get side.name)
      = .ok (readSection side (parts.findSome? (SectionText.list? side))) := by
    intro side
    rw [readSection, List.map_findSome?]
    refine parseSection_eq h hdescribes ?_ ?_ ?_
    · intro part parsed hparsed
      obtain ⟨l, hl, -⟩ := Option.map_eq_some_iff.1 hparsed
      rw [SectionText.list?_eq_some_iff.1 hl]
      rfl
    · intro part hname
      obtain ⟨l, hl⟩ := SectionText.exists_list?_of_name hname
      exact ⟨_, Option.map_eq_some_iff.2 ⟨l, hl, rfl⟩⟩
    · intro part hpart parsed hparsed
      obtain ⟨l, hl, rfl⟩ := Option.map_eq_some_iff.1 hparsed
      obtain rfl := SectionText.list?_eq_some_iff.1 hl
      exact parseListSection_eq_ok_iff.2 ⟨l, h.parts _ hpart, rfl, rfl⟩
  have hparsed := parse_of_sections hcut hprincipal hlist (fun side => standsFor_readSection side _)
  rw [ofParts, bind_readSection, bind_readSection] at hparsed
  rw [joinSections_eq, hparsed]
  rfl

/-- **Whatever is accepted is a grammatical run**, and the descriptor is assembled from it. -/
theorem exists_sections_of_parse {text : List Char} {d : Descriptor} (h : parse text = .ok d) :
    ∃ parts, IsGrammatical parts ∧ text = joinSections parts ∧ d = assemble parts := by
  obtain ⟨sections, hcut, h₁⟩ := Outcome.bind_eq_ok_iff.1 h
  obtain ⟨owner, howner, h₂⟩ := Outcome.bind_eq_ok_iff.1 h₁
  obtain ⟨group, hgroup, h₃⟩ := Outcome.bind_eq_ok_iff.1 h₂
  obtain ⟨dacl, hdacl, h₄⟩ := Outcome.bind_eq_ok_iff.1 h₃
  obtain ⟨sacl, hsacl, -⟩ := Outcome.bind_eq_ok_iff.1 h₄
  obtain ⟨parts, hnodup, -, rfl, hdescribes⟩ := Sections.ofText_eq_ok_iff.1 hcut
  -- Every section that was found was read, and its reader says what it is made of.
  have hread : ∀ {α : Type} {parseContent : List Char → Except Error α} {name : SectionName}
      {value : Option α} {content : List Char},
      parseSection parseContent (sections.get name) = .ok value → (name, content) ∈ parts →
      ∃ a, parseContent content = .ok a := by
    intro α parseContent name value content hvalue hpart
    rw [(hdescribes name content).2 hpart] at hvalue
    rcases parseSection_eq_ok_iff.1 hvalue with ⟨hnone, -⟩ | ⟨text, a, hsome, -, ha⟩
    · cases hnone
    · cases hsome
      exact ⟨a, ha⟩
  have hprincipal : ∀ (which : Principal) {value : Option Sid} {content : List Char},
      parseSection parsePrincipal (sections.get which.name) = .ok value →
      (which.name, content) ∈ parts →
      ∃ part : SectionText, part.IsGrammatical ∧ part.toSection = (which.name, content) := by
    intro which value content hvalue hpart
    obtain ⟨sid, hsid⟩ := hread hvalue hpart
    exact ⟨.principal which content sid, parsePrincipal_eq_ok_iff.1 hsid, rfl⟩
  have hlist : ∀ (side : ListSide) {value : Option ListSection} {content : List Char},
      parseSection (parseListSection side) (sections.get side.name) = .ok value →
      (side.name, content) ∈ parts →
      ∃ part : SectionText, part.IsGrammatical ∧ part.toSection = (side.name, content) := by
    intro side value content hvalue hpart
    obtain ⟨parsed, hparsed⟩ := hread hvalue hpart
    obtain ⟨l, hl, rfl, -⟩ := parseListSection_eq_ok_iff.1 hparsed
    exact ⟨.list side l, hl, rfl⟩
  have htaken : ∀ part ∈ parts, ∃ taken : SectionText,
      taken.IsGrammatical ∧ taken.toSection = part := by
    rintro ⟨name, content⟩ hpart
    cases name with
    | owner => exact hprincipal .owner howner hpart
    | group => exact hprincipal .group hgroup hpart
    | dacl => exact hlist .discretionary hdacl hpart
    | sacl => exact hlist .system hsacl hpart
  obtain ⟨taken, hgrammatical, rfl⟩ := Outcome.exists_map_eq htaken
  have hrun : IsGrammatical taken := by
    refine ⟨?_, hgrammatical⟩
    rw [List.map_map] at hnodup
    exact hnodup
  refine ⟨taken, hrun, (joinSections_eq taken).symm, ?_⟩
  -- The run is read as what is assembled from it, and it was read as the descriptor.
  have hassembled := parse_joinSections hrun
  rw [joinSections_eq, h] at hassembled
  exact Except.ok.inj hassembled

/-! ### One way, and any order -/

/-- **A text is a grammatical run in one way.** -/
theorem joinSections_inj {a b : List SectionText} (ha : IsGrammatical a) (hb : IsGrammatical b)
    (h : joinSections a = joinSections b) : a = b := by
  have hclosed : ∀ {parts : List SectionText}, IsGrammatical parts →
      ∀ part ∈ parts.map SectionText.toSection, Text.Enclosed part.2 := by
    intro parts hparts part hpart
    obtain ⟨taken, htaken, rfl⟩ := List.mem_map.1 hpart
    exact (hparts.parts taken htaken).enclosed
  rw [joinSections_eq, joinSections_eq] at h
  have hsections := Sections.parts_unique (hclosed ha) (hclosed hb) h
  have hga := ha.parts
  have hgb := hb.parts
  -- Section by section: the names and the texts agree, and so do the sections taken apart.
  clear ha hb h
  induction a generalizing b with
  | nil => exact (List.map_eq_nil_iff.1 hsections.symm).symm
  | cons part a ih =>
      cases b with
      | nil => cases hsections
      | cons part' b =>
          rw [List.map_cons, List.map_cons, List.cons.injEq] at hsections
          have hpart : part = part' := SectionText.eq_of_toSection
            (hga part (List.mem_cons_self ..)) (hgb part' (List.mem_cons_self ..)) hsections.1
          have hrest : a = b := ih hsections.2
            (fun other hother => hga other (List.mem_cons_of_mem _ hother))
            (fun other hother => hgb other (List.mem_cons_of_mem _ hother))
          rw [hpart, hrest]

theorem IsGrammatical.perm {a b : List SectionText} (ha : IsGrammatical a) (h : a.Perm b) :
    IsGrammatical b := by
  refine ⟨(h.map SectionText.name).nodup_iff.1 ha.distinct, ?_⟩
  intro part hpart
  exact ha.parts part (h.mem_iff.2 hpart)

/-- What is found by name does not depend on the order. -/
theorem findSome?_perm {α : Type} {a b : List SectionText} (ha : IsGrammatical a) (h : a.Perm b)
    (name : SectionName) {value? : SectionText → Option α}
    (hname : ∀ part v, value? part = some v → part.name = name) :
    a.findSome? value? = b.findSome? value? := by
  apply Option.ext
  intro v
  rw [findSome?_eq_some_iff ha hname, findSome?_eq_some_iff (ha.perm h) hname]
  constructor
  · rintro ⟨part, hpart, hv⟩
    exact ⟨part, h.mem_iff.1 hpart, hv⟩
  · rintro ⟨part, hpart, hv⟩
    exact ⟨part, h.mem_iff.2 hpart, hv⟩

/-- **The order of the sections does not matter.** -/
theorem assemble_perm {a b : List SectionText} (ha : IsGrammatical a) (h : a.Perm b) :
    assemble a = assemble b := by
  have hsid : ∀ which : Principal,
      a.findSome? (SectionText.sid? which) = b.findSome? (SectionText.sid? which) := by
    intro which
    refine findSome?_perm ha h which.name ?_
    intro part sid hsid
    obtain ⟨text, rfl⟩ := SectionText.sid?_eq_some_iff.1 hsid
    rfl
  have hlist : ∀ side : ListSide,
      a.findSome? (SectionText.list? side) = b.findSome? (SectionText.list? side) := by
    intro side
    refine findSome?_perm ha h side.name ?_
    intro part l hl
    rw [SectionText.list?_eq_some_iff.1 hl]
    rfl
  rw [assemble, assemble, hsid, hsid, hlist, hlist]

/-! ### The grammar -/

/-- **The grammar of descriptor texts.**  A text is accepted exactly if it is a grammatical run of
sections, and is then read as what is assembled from them; it is such a run in one way; and every
reordering of the sections is accepted and read as the same descriptor. -/
theorem parse_iff_grammar :
    (∀ (text : List Char) (d : Descriptor), parse text = .ok d ↔
      ∃ parts, IsGrammatical parts ∧ text = joinSections parts ∧ d = assemble parts) ∧
    (∀ a b : List SectionText, IsGrammatical a → IsGrammatical b →
      joinSections a = joinSections b → a = b) ∧
    (∀ a b : List SectionText, IsGrammatical a → a.Perm b →
      parse (joinSections a) = .ok (assemble a) ∧ parse (joinSections b) = .ok (assemble a)) := by
  refine ⟨?_, ?_, ?_⟩
  · intro text d
    constructor
    · exact exists_sections_of_parse
    · rintro ⟨parts, hparts, rfl, rfl⟩
      exact parse_joinSections hparts
  · intro a b ha hb h
    exact joinSections_inj ha hb h
  · intro a b ha h
    refine ⟨parse_joinSections ha, ?_⟩
    rw [assemble_perm ha h]
    exact parse_joinSections (ha.perm h)

/-- An owner and a protected discretionary list of one entry. -/
def ownedAndProtected : List SectionText :=
  let system : Sid := { authority := 5, subAuthorities := [18] }
  [ .principal .owner "SY".toList system,
    .list .discretionary ⟨[.shielded], ["A;;GA;;;SY".toList],
      [⟨.none, .common ⟨.allow, false, 0x10000000, system, []⟩⟩]⟩ ]

theorem isGrammatical_ownedAndProtected : IsGrammatical ownedAndProtected := by
  refine ⟨by decide, ?_⟩
  intro part hpart
  rcases List.mem_pair.mp hpart with rfl | rfl
  · change Sid.parse _ = _
    decide
  · refine ⟨.cons ⟨⟨?_, ?_, ?_⟩, ?_⟩ .nil, ?_, ?_⟩ <;> decide +kernel

/-- The two sections are read in either order, the second order is the only run of its text,
and one of the sections twice is no text of a run. -/
theorem parse_iff_grammar_ownedAndProtected :
    parse "O:SYD:P(A;;GA;;;SY)".toList = .ok (assemble ownedAndProtected) ∧
    parse "D:P(A;;GA;;;SY)O:SY".toList = .ok (assemble ownedAndProtected) ∧
    (∀ parts, IsGrammatical parts → joinSections parts = "D:P(A;;GA;;;SY)O:SY".toList →
      parts = ownedAndProtected.reverse) ∧
    ¬∃ parts, IsGrammatical parts ∧ joinSections parts = "O:SYO:SY".toList := by
  have hgrammatical := isGrammatical_ownedAndProtected
  have hperm : ownedAndProtected.Perm ownedAndProtected.reverse := (List.reverse_perm _).symm
  obtain ⟨haccepted, hunique, hordered⟩ := parse_iff_grammar
  refine ⟨?_, (hordered _ _ hgrammatical hperm).2, ?_, ?_⟩
  · exact (haccepted _ _).mpr ⟨ownedAndProtected, hgrammatical, rfl, rfl⟩
  · intro parts hparts htext
    exact hunique _ _ hparts (hgrammatical.perm hperm) htext
  · rintro ⟨parts, hparts, htext⟩
    have hread := (haccepted "O:SYO:SY".toList _).mpr ⟨parts, hparts, htext.symm, rfl⟩
    have hrefused : parse "O:SYO:SY".toList = .error (.descriptor .repeatedSection 4) := by
      decide +kernel
    rw [hrefused] at hread
    cases hread

end Descriptor

end SecurityDescriptor
