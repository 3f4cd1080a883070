/-
**How a text is refused.**

A text that is no descriptor is damaged: the error names a fault and the position of it.  There are
only two other reasons to refuse one.  It may use an abbreviation that stands for an identifier only
within some domain, or it may spell a list that is greater than its size field can say.  What the
readers check beyond that never refuses a text.

Main definitions:

* `IdentifierFault.ofText`, `EntryFault.ofText`, `ListFault.ofText`, `DescriptorFault.ofText` — the
  faults that a text can have;
* `Sid.Refusal`, `Entry.Refusal`, `AccessList.Refusal`, `Descriptor.Refusal` — what the readers
  report, layer by layer;
* `Text.ScansAsRead` — the programs that read by position come to what the readers read.

Main results:

* `Sid.onlyFails_parse`, `Entry.onlyFails_parse`, `AccessList.onlyFails_parse`,
  `Descriptor.onlyFails_parse` — **the readers report nothing else**;
* `Descriptor.Refusal.cases` — a descriptor is damaged, needs a domain or has too long a list;
* `Text.scansAsRead` — the programs that read by position come to an end without a trap;
* `Text.readers_disciplined` — both together, for any text.
-/

import SecurityDescriptor.Proofs.Descriptor.Scanning
import SecurityDescriptor.Proofs.Sid.Misfit

set_option relaxedAutoImplicit false
set_option autoImplicit false

namespace SecurityDescriptor

open Outcome

/-! ### Identifiers -/

/-- The faults that the text of an identifier can have. -/
def IdentifierFault.ofText : List IdentifierFault :=
  [ .missingLead, .missingComponent, .revision, .authorityNotNumber, .authorityTooLarge,
    .subAuthorityNotNumber, .tooManySubAuthorities ]

namespace Sid

/-- **What the reader of identifiers reports.** -/
inductive Refusal : Error → Prop
  | fault {fault : IdentifierFault} (h : fault ∈ IdentifierFault.ofText) (offset : Nat) :
      Refusal (.identifier fault offset)
  | domain {token : String} (h : token ∈ domainAbbreviations) :
      Refusal (.unsupportedForm .domainAbbreviation token)

theorem Misfit.mem_ofText {index : Nat} {component : List Char} {fault : IdentifierFault}
    (h : Misfit index component fault) : fault ∈ IdentifierFault.ofText := by
  cases h <;> decide

theorem onlyFails_parse (text : List Char) : OnlyFails Refusal (parse text) := by
  intro e h
  rcases parse_eq_error h with ⟨token, htoken, -, rfl⟩ | h
  · exact .domain htoken
  · rcases parseComponents_eq_error (List.splitOn_ne_nil _ _) h with
      ⟨fault, offset, hfirst, rfl⟩ | ⟨-, -, rfl⟩
    · obtain ⟨front, component, back, -, -, hmisfit, -⟩ := hfirst.split
      exact .fault hmisfit.mem_ofText offset
    · exact .fault (by decide) _

end Sid

/-! ### Entries -/

/-- **No token names compound entries.** -/
theorem Kind.ofToken?_ne_compound {token : List Char} : ofToken? token ≠ some .compound := by
  intro h
  obtain ⟨row, hrow, hkind⟩ := Option.map_eq_some_iff.mp h
  have hall : ∀ row ∈ tokens, row.2 ≠ .compound := by decide
  exact hall row (List.mem_of_find?_eq_some hrow) hkind

/-- The faults that the text of an entry can have. -/
def EntryFault.ofText : List EntryFault :=
  [.fieldCount, .unknownKind, .unknownFlag, .maskNotHex, .maskUnrecognised, .guidShape, .guidDigit]

namespace Entry

/-- **What the reader of entries reports.** -/
inductive Refusal : Error → Prop
  | fault {fault : EntryFault} (h : fault ∈ EntryFault.ofText) (offset : Nat) :
      Refusal (.entry fault offset)
  | sid {e : Error} (h : Sid.Refusal e) : Refusal e

theorem onlyFails_mask (text : List Char) : OnlyFails Refusal (Mask.parse text) := by
  intro e h
  rcases Mask.parse_eq_error h with rfl | rfl
  · exact .fault (by decide) 0
  · exact .fault (by decide) 0

theorem onlyFails_guidGroup (columns : List Char) (start count : Nat) :
    OnlyFails Refusal (Guid.parseGroup columns start count) := by
  rw [Guid.parseGroup]
  split
  · exact onlyFails_ok Refusal _
  · exact onlyFails_error (.fault (by decide) start)

theorem onlyFails_guid (text : List Char) : OnlyFails Refusal (Guid.parse text) := by
  rw [Guid.parse]
  split
  · exact (onlyFails_guidGroup _ 0 8).bind fun _ => (onlyFails_guidGroup _ 9 4).bind fun _ =>
      (onlyFails_guidGroup _ 14 4).bind fun _ => (onlyFails_guidGroup _ 19 4).bind fun _ =>
      (onlyFails_guidGroup _ 24 12).bind fun _ => onlyFails_ok Refusal _
  · exact onlyFails_error (.fault (by decide) 0)

theorem onlyFails_parseGuid (field : List Char) : OnlyFails Refusal (parseGuid field) := by
  rw [parseGuid]
  split
  · exact onlyFails_ok Refusal none
  · exact (onlyFails_guid field).bind fun _ => onlyFails_ok Refusal _

/-- The fields are refused one by one.  No field is for bytes behind the identifier, so nothing is
refused for their number. -/
theorem onlyFails_parseFields (kind flags mask objectType inheritedType sid : List Char) :
    OnlyFails Refusal (parseFields kind flags mask objectType inheritedType sid) := by
  rw [parseFields]
  split
  · exact onlyFails_error (.fault (by decide) 0)
  · rename_i hkind
    exact absurd hkind Kind.ofToken?_ne_compound
  · split
    · exact onlyFails_error (.fault (by decide) 0)
    · refine (onlyFails_mask mask).bind fun value => ?_
      refine (onlyFails_parseGuid objectType).bind fun objectType => ?_
      refine (onlyFails_parseGuid inheritedType).bind fun inheritedType => ?_
      refine ((Sid.onlyFails_parse sid).mono .sid).bind fun sid => ?_
      rw [ofParts_eq_ok rfl]
      exact onlyFails_ok Refusal _

theorem onlyFails_parse (text : List Char) : OnlyFails Refusal (parse text) := by
  rw [parse]
  split
  · exact onlyFails_parseFields _ _ _ _ _ _
  · exact onlyFails_error (.fault (by decide) _)

/-- An entry is not refused for a number that is out of range. -/
theorem Refusal.kind_ne {e : Error} (h : Refusal e) : e.kind ≠ .outOfRange := by
  cases h with
  | fault => exact nofun
  | sid h => cases h <;> exact nofun

theorem Refusal.ne_extraTooLong {e : Error} (h : Refusal e) (offset : Nat) :
    e ≠ .entry .extraTooLong offset := by
  rintro rfl
  cases h with
  | fault hfault => exact absurd hfault (by decide)
  | sid h => cases h

end Entry

/-! ### Lists -/

/-- The faults that the text of a list can have. -/
def ListFault.ofText : List ListFault :=
  [.emptyBody, .entryNotOpened, .entryNotClosed, .entryEmptyOrNested]

namespace AccessList

/-- **What the reader of lists reports.** -/
inductive Refusal : Error → Prop
  | fault {fault : ListFault} (h : fault ∈ ListFault.ofText) (offset : Nat) :
      Refusal (.list fault offset)
  | entry {e : Error} (h : Entry.Refusal e) : Refusal e
  /-- The entries are well, but there is no room for their size in the size field. -/
  | tooLong {entries : List Entry} (h : maxSize < headerSize + entriesSize entries) :
      Refusal (.outOfRange .listLength (headerSize + entriesSize entries) maxSize)

theorem onlyFails_step (cutting : Cutting) (c : Char) :
    OnlyFails Refusal (cutting.step c) := by
  rw [Cutting.step]
  split
  · split
    · exact onlyFails_ok Refusal _
    · exact onlyFails_error (.fault (by decide) _)
  · split
    · split
      · exact onlyFails_error (.fault (by decide) _)
      · exact onlyFails_ok Refusal _
    · exact onlyFails_ok Refusal _

theorem onlyFails_splitEntries (text : List Char) : OnlyFails Refusal (splitEntries text) := by
  refine (OnlyFails.foldlM onlyFails_step text _).bind fun cutting => ?_
  rw [Cutting.finish]
  split
  · exact onlyFails_ok Refusal _
  · exact onlyFails_error (.fault (by decide) _)

theorem onlyFails_ofEntries (revision : UInt8) (entries : List Entry) :
    OnlyFails Refusal (ofEntries revision entries) := by
  rw [ofEntries, checkSize]
  split
  · rename_i hsize
    exact onlyFails_error (.tooLong hsize)
  · exact onlyFails_ok Refusal _

theorem onlyFails_parse (text : List Char) : OnlyFails Refusal (parse text) := by
  refine (onlyFails_splitEntries text).bind fun tokens => ?_
  split
  · exact onlyFails_error (.fault (by decide) 0)
  · have hentry : ∀ token, OnlyFails Refusal (Entry.parse token) :=
      fun token => (Entry.onlyFails_parse token).mono .entry
    exact (OnlyFails.mapM hentry tokens).bind fun entries => onlyFails_ofEntries _ entries

end AccessList

/-! ### Descriptors -/

/-- The faults that the text of a descriptor can have. -/
def DescriptorFault.ofText : List DescriptorFault :=
  [ .unbalanced, .markWithoutLetter, .noLeadingMark, .unknownMark, .repeatedSection,
    .emptyPrincipal, .unknownListMark, .nullListWithEntries, .listMissing ]

namespace Descriptor

/-- **What the reader of descriptors reports.** -/
inductive Refusal : Error → Prop
  | fault {fault : DescriptorFault} (h : fault ∈ DescriptorFault.ofText) (offset : Nat) :
      Refusal (.descriptor fault offset)
  | sid {e : Error} (h : Sid.Refusal e) : Refusal e
  | list {e : Error} (h : AccessList.Refusal e) : Refusal e

theorem onlyFails_step (s : Sectioning) (c : Char) : OnlyFails Refusal (s.step c) := by
  rw [Sectioning.step]
  split
  · exact onlyFails_ok Refusal _
  · split
    · split
      · exact onlyFails_error (.fault (by decide) _)
      · exact onlyFails_ok Refusal _
    · split
      · rw [Sectioning.mark]
        split
        · exact onlyFails_error (.fault (by decide) _)
        · split
          · exact onlyFails_ok Refusal _
          · exact onlyFails_error (.fault (by decide) _)
      · exact onlyFails_ok Refusal _

theorem onlyFails_finish (s : Sectioning) : OnlyFails Refusal s.finish := by
  rw [Sectioning.finish]
  split
  · exact onlyFails_error (.fault (by decide) _)
  · split
    · exact onlyFails_error (.fault (by decide) _)
    · exact onlyFails_ok Refusal _

theorem onlyFails_add (sections : Sections) (raw : RawSection) :
    OnlyFails Refusal (sections.add raw) := by
  rw [Sections.add]
  split
  · exact onlyFails_error (.fault (by decide) _)
  · split
    · exact onlyFails_error (.fault (by decide) _)
    · exact onlyFails_ok Refusal _

theorem onlyFails_ofText (text : List Char) : OnlyFails Refusal (Sections.ofText text) :=
  (OnlyFails.foldlM onlyFails_step text _).bind fun s => (onlyFails_finish s).bind fun raws =>
    OnlyFails.foldlM onlyFails_add raws _

theorem onlyFails_parsePrincipal (content : List Char) :
    OnlyFails Refusal (parsePrincipal content) := by
  rw [parsePrincipal]
  split
  · exact onlyFails_error (.fault (by decide) 0)
  · exact (Sid.onlyFails_parse content).mono .sid

theorem onlyFails_parseListSection (side : ListSide) (content : List Char) :
    OnlyFails Refusal (parseListSection side content) := by
  rw [parseListSection]
  dsimp only
  split
  · exact onlyFails_error (.fault (by decide) 0)
  · split
    · split
      · exact onlyFails_ok Refusal _
      · exact onlyFails_error (.fault (by decide) _)
    · split
      · exact onlyFails_error (.fault (by decide) _)
      · exact ((AccessList.onlyFails_parse _).mono .list).bind fun _ => onlyFails_ok Refusal _

theorem onlyFails_parseSection {α : Type} {parse : List Char → Except Error α}
    (h : ∀ content, OnlyFails Refusal (parse content)) (content : Option (List Char)) :
    OnlyFails Refusal (parseSection parse content) := by
  cases content with
  | none => exact onlyFails_ok Refusal none
  | some content => exact (h content).bind fun _ => onlyFails_ok Refusal _

theorem onlyFails_parse (text : List Char) : OnlyFails Refusal (parse text) := by
  refine (onlyFails_ofText text).bind fun sections => ?_
  refine (onlyFails_parseSection onlyFails_parsePrincipal sections.owner).bind fun owner => ?_
  refine (onlyFails_parseSection onlyFails_parsePrincipal sections.group).bind fun group => ?_
  refine (onlyFails_parseSection (onlyFails_parseListSection _) sections.dacl).bind fun dacl => ?_
  refine (onlyFails_parseSection (onlyFails_parseListSection _) sections.sacl).bind fun sacl => ?_
  exact onlyFails_ok Refusal _

/-- **A descriptor is damaged, needs a domain or has too long a list.** -/
theorem Refusal.cases {e : Error} (h : Refusal e) :
    e.isMalformed = true
    ∨ (∃ token ∈ Sid.domainAbbreviations, e = .unsupportedForm .domainAbbreviation token)
    ∨ ∃ size, AccessList.maxSize < size ∧ e = .outOfRange .listLength size AccessList.maxSize := by
  have hsid : ∀ {e : Error}, Sid.Refusal e → e.isMalformed = true
      ∨ ∃ token ∈ Sid.domainAbbreviations, e = .unsupportedForm .domainAbbreviation token := by
    rintro e (⟨-, offset⟩ | htoken)
    · exact .inl rfl
    · exact .inr ⟨_, htoken, rfl⟩
  have hentry : ∀ {e : Error}, Entry.Refusal e → e.isMalformed = true
      ∨ ∃ token ∈ Sid.domainAbbreviations, e = .unsupportedForm .domainAbbreviation token := by
    rintro e (⟨-, offset⟩ | h)
    · exact .inl rfl
    · exact hsid h
  cases h with
  | fault => exact .inl rfl
  | sid h => exact (hsid h).imp_right .inl
  | list h =>
      cases h with
      | fault => exact .inl rfl
      | entry h => exact (hentry h).imp_right .inl
      | tooLong h => exact .inr (.inr ⟨_, h, rfl⟩)

/-- An answer that is not to be had and a buffer that is too small are nothing to refuse a text
for. -/
theorem Refusal.kind_ne {e : Error} (h : Refusal e) :
    e.kind ≠ .notSupported ∧ e.kind ≠ .bufferTooSmall := by
  rcases h.cases with h | ⟨token, -, rfl⟩ | ⟨size, -, rfl⟩
  · constructor
    · intro hkind
      rw [Error.isMalformed, hkind] at h
      cases h
    · intro hkind
      rw [Error.isMalformed, hkind] at h
      cases h
  · exact ⟨nofun, nofun⟩
  · exact ⟨nofun, nofun⟩

/-- **Sections never overlap.** -/
theorem Refusal.ne_sectionsOverlap {e : Error} (h : Refusal e) (offset : Nat) :
    e ≠ .descriptor .sectionsOverlap offset := by
  rintro rfl
  cases h with
  | fault hfault => exact absurd hfault (by decide)
  | sid h => cases h
  | list h =>
      cases h with
      | entry h =>
          cases h with
          | sid h => cases h

end Descriptor

/-! ### All readers -/

namespace Text

/-- **The programs read the text**: none of them traps or runs for ever, and each comes to what its
reader reads. -/
structure ScansAsRead (decode : HexDecoder) (text : List Char) : Prop where
  descriptor : (Descriptor.scan decode text).run = some (.ok (Descriptor.parse text))
  /-- The reader of sections has no place for sections that overlap. -/
  sections : (Sections.scan text).run = .ok (Sections.ofText text)
  list : (AccessList.scan decode text).run = some (.ok (AccessList.parse text))
  entry : (Entry.scan decode text).run = some (.ok (Entry.parse text))
  sid : (Sid.scan text).run = .ok (Sid.parse text)
  guid : (Guid.scan decode text).run = .ok (Guid.parse text)

theorem scansAsRead {decode : HexDecoder} (hdecode : decode.DecodesPairs) {text : List Char}
    (h : width text < Checked.sliceLimit) : ScansAsRead decode text where
  descriptor := congrArg Looping.run (Descriptor.scan_eq hdecode h)
  sections := congrArg Checked.run (Sections.scan_eq h)
  list := congrArg Looping.run (AccessList.scan_eq hdecode h)
  entry := congrArg Looping.run (Entry.scan_eq hdecode h)
  sid := congrArg Checked.run (Sid.scan_eq h)
  guid := congrArg Checked.run (Guid.scan_eq hdecode text)

/-- One of the readers refuses the text with this error. -/
def RefusedWith (text : List Char) (e : Error) : Prop :=
  Descriptor.parse text = .error e ∨ AccessList.parse text = .error e
    ∨ Entry.parse text = .error e ∨ Sid.parse text = .error e ∨ Guid.parse text = .error e

theorem RefusedWith.refusal {text : List Char} {e : Error} (h : RefusedWith text e) :
    Descriptor.Refusal e := by
  rcases h with h | h | h | h | h
  · exact Descriptor.onlyFails_parse text e h
  · exact .list (AccessList.onlyFails_parse text e h)
  · exact .list (.entry (Entry.onlyFails_parse text e h))
  · exact .sid (Sid.onlyFails_parse text e h)
  · exact .list (.entry (Entry.onlyFails_guid text e h))

/-- **Any text is read to the end, and refused for few reasons.**  A slice cannot have more bytes
than the limit.  The programs that read it by position come to an end without a trap, and to what
the readers read.  A refused text is damaged, needs a domain or spells too long a list; sections
never overlap, no token asks for a compound entry, and an entry is not refused for bytes behind its
identifier. -/
theorem readers_disciplined (text : List Char) :
    (∀ decode : HexDecoder, decode.DecodesPairs → width text < Checked.sliceLimit →
      ScansAsRead decode text)
    ∧ (∀ e, RefusedWith text e →
        (e.isMalformed = true
          ∨ (∃ token ∈ Sid.domainAbbreviations, e = .unsupportedForm .domainAbbreviation token)
          ∨ ∃ size, AccessList.maxSize < size
              ∧ e = .outOfRange .listLength size AccessList.maxSize)
        ∧ e.kind ≠ .notSupported ∧ e.kind ≠ .bufferTooSmall
        ∧ (∀ offset, e ≠ .descriptor .sectionsOverlap offset)
        ∧ ∀ code, e ≠ .unavailable .compoundText code)
    ∧ ∀ e, Entry.parse text = .error e →
        e.kind ≠ .outOfRange ∧ ∀ offset, e ≠ .entry .extraTooLong offset := by
  refine ⟨fun decode hdecode h => scansAsRead hdecode h, ?_, ?_⟩
  · intro e he
    have hrefusal := he.refusal
    refine ⟨hrefusal.cases, hrefusal.kind_ne.1, hrefusal.kind_ne.2, hrefusal.ne_sectionsOverlap, ?_⟩
    rintro code rfl
    exact hrefusal.kind_ne.1 rfl
  · intro e he
    have hrefusal := Entry.onlyFails_parse text e he
    exact ⟨hrefusal.kind_ne, hrefusal.ne_extraTooLong⟩

/-- A character of two bytes between the marks of a list and its entries. -/
theorem readers_disciplined_twoBytes :
    (Descriptor.scan HexPairs.decode "D:PAIé(A;;FA;;;WD)".toList).run
        = some (.ok (.error (.descriptor .unknownListMark 0)))
      ∧ Error.isMalformed (.descriptor .unknownListMark 0) = true := by
  obtain ⟨hscans, hrefused, -⟩ := readers_disciplined "D:PAIé(A;;FA;;;WD)".toList
  have hparse : Descriptor.parse "D:PAIé(A;;FA;;;WD)".toList
      = .error (.descriptor .unknownListMark 0) := by decide +kernel
  have hrun := (hscans HexPairs.decode HexPairs.decodesPairs_decode (by decide +kernel)).descriptor
  rw [hparse] at hrun
  refine ⟨hrun, ?_⟩
  rcases (hrefused _ (.inl hparse)).1 with h | ⟨token, -, h⟩ | ⟨size, -, h⟩
  · exact h
  · cases h
  · cases h

end Text

end SecurityDescriptor
