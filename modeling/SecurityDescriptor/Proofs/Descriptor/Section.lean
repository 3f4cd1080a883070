/-
**A text is cut into sections in one way.**

A section starts at a letter in front of a colon, and only a colon outside all parentheses counts.
The reader finds the colon after it has read the letter, so it takes the letter away from the
content that it was reading.  What it has read at any point is the sections found so far, of which
all but the last are closed: their parentheses match, and no colon stands outside them.  So a text
is accepted exactly if it is a run of sections with closed contents and different names, and the
sections of such a run are found as they are.

Main definitions:

* `Text.nest`, `Text.Enclosed` — the number of open parentheses, and closed texts;
* `Sectioning.Reads` — what was read so far;
* `Sections.Section`, `Sections.Describes` — a section with its content, and the contents of the
  sections of a run.

Main results:

* `Sectioning.Reads.step` — reading one more character keeps what was read;
* `Sectioning.foldlM_step_parts` — a run of sections is cut into its sections;
* `Sections.ofText_eq_ok_iff` — **the reader accepts exactly the runs of different sections**;
* `Sections.ofText_flatMap_optionText` — what is written section by section is read section by
  section;
* `Sections.parts_unique` — **a text is a run of closed sections in one way**.
-/

import SecurityDescriptor.Descriptor.Section
import SecurityDescriptor.Proofs.Outcome
import SecurityDescriptor.Proofs.Text.Plain

set_option relaxedAutoImplicit false
set_option autoImplicit false

namespace SecurityDescriptor

/-! ### Closed texts -/

namespace Text

/-- The number of open parentheses behind a character.  Nothing is left of a text in which a
parenthesis is closed that was not opened, or in which a colon stands outside all parentheses. -/
def nest (depth : Nat) (c : Char) : Option Nat :=
  if c = '(' then some (depth + 1)
  else if c = ')' then (if depth = 0 then none else some (depth - 1))
  else if c = ':' ∧ depth = 0 then none
  else some depth

/-- **A closed text**: its parentheses match, and no colon stands outside them. -/
def Enclosed (text : List Char) : Prop := text.foldlM nest 0 = some 0

theorem enclosed_nil : Enclosed [] := rfl

theorem Enclosed.append {a b : List Char} (ha : Enclosed a) (hb : Enclosed b) :
    Enclosed (a ++ b) := by
  rw [Enclosed, List.foldlM_append, ha]
  exact hb

/-- A character that is neither a parenthesis nor a colon opens and closes nothing. -/
theorem nest_of_ne {c : Char} (hopen : c ≠ '(') (hclose : c ≠ ')') (hcolon : c ≠ ':')
    (depth : Nat) : nest depth c = some depth := by
  rw [nest, if_neg hopen, if_neg hclose, if_neg (fun h => hcolon h.1)]

theorem foldlM_nest_of_ne {text : List Char}
    (h : ∀ c ∈ text, c ≠ '(' ∧ c ≠ ')' ∧ c ≠ ':') (depth : Nat) :
    text.foldlM nest depth = some depth := by
  induction text with
  | nil => rfl
  | cons c text ih =>
      obtain ⟨hopen, hclose, hcolon⟩ := h c (List.mem_cons_self ..)
      rw [List.foldlM_cons, nest_of_ne hopen hclose hcolon]
      exact ih fun d hd => h d (List.mem_cons_of_mem c hd)

theorem IsPlain.enclosed {text : List Char} (h : IsPlain text) : Enclosed text := by
  refine foldlM_nest_of_ne ?_ 0
  intro c hc
  refine ⟨?_, ?_, ?_⟩
  · rintro rfl
    exact h.not_mem (by decide) hc
  · rintro rfl
    exact h.not_mem (by decide) hc
  · rintro rfl
    exact h.not_mem (by decide) hc

/-- Within parentheses a text without parentheses changes nothing, colons included. -/
theorem foldlM_nest_inside {text : List Char} (hopen : '(' ∉ text) (hclose : ')' ∉ text)
    (depth : Nat) : text.foldlM nest (depth + 1) = some (depth + 1) := by
  induction text with
  | nil => rfl
  | cons c text ih =>
      have hc : nest (depth + 1) c = some (depth + 1) := by
        have hfirst : c ≠ '(' := by
          rintro rfl
          exact hopen (List.mem_cons_self ..)
        have hsecond : c ≠ ')' := by
          rintro rfl
          exact hclose (List.mem_cons_self ..)
        rw [nest, if_neg hfirst, if_neg hsecond, if_neg (fun h => Nat.succ_ne_zero depth h.2)]
      rw [List.foldlM_cons, hc]
      exact ih (fun hmem => hopen (List.mem_cons_of_mem c hmem))
        (fun hmem => hclose (List.mem_cons_of_mem c hmem))

theorem nest_of_isAlpha {c : Char} (h : c.isAlpha = true) (depth : Nat) :
    nest depth c = some depth := by
  have hne : ∀ d : Char, d.isAlpha = false → c ≠ d := by
    rintro d hd rfl
    rw [h] at hd
    cases hd
  exact nest_of_ne (hne '(' (by decide)) (hne ')' (by decide)) (hne ':' (by decide)) depth

end Text

/-! ### What was read -/

namespace Sectioning

/-- The text of a section as it was found. -/
def rawText (raw : RawSection) : List Char := raw.letter :: ':' :: raw.content.reverse

/-- **What was read so far**: sections, all of them closed but the last. -/
structure Reads (s : Sectioning) (text : List Char) : Prop where
  text_eq : text = s.lead.reverse ++ s.sections.reverse.flatMap rawText
  open_current : s.current.reverse.foldlM Text.nest 0 = some s.depth
  closed : ∀ raw ∈ s.sections.tail, Text.Enclosed raw.content.reverse

theorem reads_initial : initial.Reads [] :=
  ⟨rfl, rfl, fun _ h => (List.not_mem_nil h).elim⟩

theorem depth_push (s : Sectioning) (c : Char) : { s.push c with depth := s.depth } = s.push c := by
  obtain ⟨depth, position, lead, sections⟩ := s
  cases sections <;> rfl

/-- The two things that a step can do: one more character of the current section, or a new
section. -/
theorem step_eq_ok_iff {s next : Sectioning} {c : Char} :
    s.step c = .ok next ↔
      (∃ depth, Text.nest s.depth c = some depth ∧ next = { s.push c with depth := depth }) ∨
      (c = ':' ∧ s.depth = 0 ∧ s.mark = .ok next) := by
  unfold step Text.nest
  by_cases hopen : c = '('
  · subst hopen
    simp [eq_comm]
  · by_cases hclose : c = ')'
    · subst hclose
      rw [if_neg (by decide), if_pos rfl, if_neg (by decide), if_pos rfl]
      cases s.depth with
      | zero => simp
      | succ depth => simp [eq_comm]
    · by_cases hcolon : c = ':' ∧ s.depth = 0
      · rw [if_neg hopen, if_neg hclose, if_pos hcolon, if_neg hopen, if_neg hclose, if_pos hcolon]
        simp [hcolon]
      · rw [if_neg hopen, if_neg hclose, if_neg hcolon, if_neg hopen, if_neg hclose, if_neg hcolon]
        constructor
        · intro h
          cases h
          exact .inl ⟨s.depth, rfl, (depth_push s c).symm⟩
        · rintro (⟨depth, hdepth, rfl⟩ | ⟨hc, hdepth, -⟩)
          · cases hdepth
            rw [depth_push]
          · exact absurd ⟨hc, hdepth⟩ hcolon

/-- A mark takes the letter away from what was read and starts a section with it. -/
theorem mark_eq_ok_iff {s next : Sectioning} :
    s.mark = .ok next ↔ ∃ letter before, s.current = letter :: before ∧ letter.isAlpha = true ∧
      next = { s.withCurrent before with
        position := s.position + 1
        sections := ⟨letter, s.position - 1, []⟩ :: (s.withCurrent before).sections } := by
  unfold mark
  constructor
  · intro h
    split at h
    · cases h
    · rename_i letter before hcurrent
      split at h
      · rename_i hletter
        cases h
        exact ⟨letter, before, hcurrent, hletter, rfl⟩
      · cases h
  · rintro ⟨letter, before, hcurrent, hletter, rfl⟩
    rw [hcurrent]
    dsimp only
    rw [if_pos hletter]

theorem Reads.push {s : Sectioning} {text : List Char} {c : Char} {depth : Nat}
    (h : s.Reads text) (hdepth : Text.nest s.depth c = some depth) :
    Reads { s.push c with depth := depth } (text ++ [c]) := by
  obtain ⟨htext, hcurrent, hclosed⟩ := h
  have hnest : (s.current.reverse ++ [c]).foldlM Text.nest 0 = some depth := by
    rw [List.foldlM_append, hcurrent]
    simp [hdepth]
  obtain ⟨d, position, lead, sections⟩ := s
  cases sections with
  | nil =>
      refine ⟨?_, ?_, hclosed⟩
      · rw [htext]
        simp [Sectioning.push, withCurrent, current]
      · simpa only [Sectioning.push, withCurrent, current, List.reverse_cons] using hnest
  | cons raw sections =>
      refine ⟨?_, ?_, hclosed⟩
      · rw [htext]
        simp [Sectioning.push, withCurrent, current, rawText]
      · simpa only [Sectioning.push, withCurrent, current, List.reverse_cons] using hnest

theorem Reads.mark {s next : Sectioning} {text : List Char} (h : s.Reads text)
    (hdepth : s.depth = 0) (hmark : s.mark = .ok next) : next.Reads (text ++ [':']) := by
  obtain ⟨htext, hcurrent, hclosed⟩ := h
  obtain ⟨letter, before, hletter, halpha, rfl⟩ := mark_eq_ok_iff.1 hmark
  -- Without its letter the section in front of the mark is still closed.
  have hbefore : Text.Enclosed before.reverse := by
    rw [hletter, List.reverse_cons, List.foldlM_append, hdepth] at hcurrent
    obtain ⟨depth, hfront, hlast⟩ := Option.bind_eq_some_iff.1 hcurrent
    rw [List.foldlM_cons, Text.nest_of_isAlpha halpha] at hlast
    cases hlast
    exact hfront
  obtain ⟨d, position, lead, sections⟩ := s
  obtain rfl : d = 0 := hdepth
  cases sections with
  | nil =>
      have hlead : lead = letter :: before := hletter
      refine ⟨?_, ?_, ?_⟩
      · rw [htext, hlead]
        simp [withCurrent, rawText]
      · rfl
      · exact fun _ hmem => (List.not_mem_nil hmem).elim
  | cons raw sections =>
      have hcontent : raw.content = letter :: before := hletter
      refine ⟨?_, ?_, ?_⟩
      · rw [htext]
        simp [withCurrent, rawText, hcontent]
      · rfl
      · intro other hother
        rcases List.mem_cons.1 hother with rfl | hother
        · exact hbefore
        · exact hclosed other hother

/-- **Reading one more character keeps what was read.** -/
theorem Reads.step {s next : Sectioning} {text : List Char} {c : Char} (h : s.Reads text)
    (hstep : s.step c = .ok next) : next.Reads (text ++ [c]) := by
  rcases step_eq_ok_iff.1 hstep with ⟨depth, hdepth, rfl⟩ | ⟨rfl, hdepth, hmark⟩
  · exact h.push hdepth
  · exact h.mark hdepth hmark

/-- What is cut into sections is the run of these sections, and all of them are closed. -/
theorem rawText_of_run {text : List Char} {s : Sectioning} {raws : List RawSection}
    (hrun : text.foldlM Sectioning.step initial = .ok s) (hfinish : s.finish = .ok raws) :
    text = raws.flatMap rawText ∧ ∀ raw ∈ raws, Text.Enclosed raw.content.reverse := by
  -- At the end nothing is open, so the last section is closed like those before it.
  obtain ⟨htext, hcurrent, hclosed⟩ := Outcome.foldlM_invariant Reads reads_initial
    (fun _ _ _ _ hreads hstep => hreads.step hstep) hrun
  unfold finish at hfinish
  split at hfinish
  · cases hfinish
  · rename_i hdepth
    split at hfinish
    · cases hfinish
    · rename_i hlead
      cases hfinish
      have hnil : s.lead = [] := Decidable.of_not_not hlead
      have hzero : s.depth = 0 := Decidable.of_not_not hdepth
      refine ⟨?_, ?_⟩
      · rw [htext, hnil]
        rfl
      · intro raw hraw
        rw [List.mem_reverse] at hraw
        cases hsections : s.sections with
        | nil =>
            rw [hsections] at hraw
            exact (List.not_mem_nil hraw).elim
        | cons last sections =>
            rw [hsections] at hraw hclosed
            rcases List.mem_cons.1 hraw with rfl | hraw
            · have hlast : s.current = raw.content := by rw [current, hsections]
              rw [hlast, hzero] at hcurrent
              exact hcurrent
            · exact hclosed raw hraw

/-! ### Cutting a run of sections -/

theorem withCurrent_current (s : Sectioning) : s.withCurrent s.current = s := by
  obtain ⟨depth, position, lead, sections⟩ := s
  cases sections <;> rfl

/-- The content of a section is read up to the end as long as nothing closes that was not opened
and no colon stands outside the parentheses. -/
theorem foldlM_step_content {content : List Char} {s : Sectioning} {depth : Nat}
    (h : content.foldlM Text.nest s.depth = some depth) :
    ∃ position, content.foldlM Sectioning.step s
      = .ok { s.withCurrent (content.reverse ++ s.current) with
          depth := depth, position := position } := by
  induction content generalizing s with
  | nil =>
      cases h
      refine ⟨s.position, ?_⟩
      rw [List.reverse_nil, List.nil_append, withCurrent_current]
      rfl
  | cons c content ih =>
      rw [List.foldlM_cons] at h
      obtain ⟨d, hd, hrest⟩ := Option.bind_eq_some_iff.1 h
      have hstep : s.step c = .ok { s.push c with depth := d } :=
        step_eq_ok_iff.2 (.inl ⟨d, hd, rfl⟩)
      obtain ⟨position, hrun⟩ := ih (s := { s.push c with depth := d }) hrest
      refine ⟨position, ?_⟩
      rw [List.foldlM_cons, hstep, Outcome.ok_bind, hrun]
      obtain ⟨d', position', lead, sections⟩ := s
      cases sections <;> simp [push, withCurrent, current]

/-- A section is found as it is, whatever was read before it. -/
theorem foldlM_step_section {letter : Char} {content : List Char} (halpha : letter.isAlpha = true)
    (henclosed : Text.Enclosed content) {s : Sectioning} (hdepth : s.depth = 0) :
    ∃ start position, (letter :: ':' :: content).foldlM Sectioning.step s
      = .ok { s with
          position := position
          sections := ⟨letter, start, content.reverse⟩ :: s.sections } := by
  obtain ⟨d, p, lead, sections⟩ := s
  obtain rfl : d = 0 := hdepth
  -- The letter is first taken for a character of the section before it.
  let pushed : Sectioning := { push ⟨0, p, lead, sections⟩ letter with depth := 0 }
  have hletter : Sectioning.step ⟨0, p, lead, sections⟩ letter = .ok pushed :=
    step_eq_ok_iff.2 (.inl ⟨0, Text.nest_of_isAlpha halpha 0, rfl⟩)
  let marked : Sectioning := ⟨0, pushed.position + 1, lead,
    ⟨letter, pushed.position - 1, []⟩ :: sections⟩
  have hmark : pushed.step ':' = .ok marked := by
    refine step_eq_ok_iff.2 (.inr ⟨rfl, rfl, mark_eq_ok_iff.2 ?_⟩)
    cases sections with
    | nil => exact ⟨letter, lead, rfl, halpha, rfl⟩
    | cons raw sections => exact ⟨letter, raw.content, rfl, halpha, rfl⟩
  obtain ⟨position, hcontent⟩ := foldlM_step_content (s := marked) henclosed
  refine ⟨pushed.position - 1, position, ?_⟩
  rw [List.foldlM_cons, hletter, Outcome.ok_bind, List.foldlM_cons, hmark, Outcome.ok_bind,
    hcontent]
  simp [marked, withCurrent, current]

end Sectioning

/-! ### Runs of sections -/

namespace SectionName

theorem isAlpha_letter (name : SectionName) : name.letter.isAlpha = true := by
  cases name <;> decide

theorem letter_inj {a b : SectionName} (h : a.letter = b.letter) : a = b := by
  cases a <;> cases b <;> first | rfl | exact absurd h (by decide)

theorem ofLetter?_eq_some_iff {c : Char} {name : SectionName} :
    ofLetter? c = some name ↔ name.letter = c := by
  constructor
  · intro h
    have hfind : all.find? (fun name => name.letter == c) = some name := h
    have hletter := List.find?_some hfind
    rw [beq_iff_eq] at hletter
    exact hletter
  · rintro rfl
    cases name <;> decide

end SectionName

namespace Sections

/-- A section with its content. -/
abbrev Section := SectionName × List Char

/-- The text of a section. -/
def sectionText (part : Section) : List Char := part.1.letter :: ':' :: part.2

/-- A section as it was found is this one. -/
def Matches (raw : RawSection) (part : Section) : Prop :=
  raw.letter = part.1.letter ∧ raw.content.reverse = part.2

/-- **The contents of the sections of a run.** -/
def Describes (sections : Sections) (parts : List Section) : Prop :=
  ∀ name content, sections.get name = some content ↔ (name, content) ∈ parts

theorem ext_get {a b : Sections} (h : ∀ name, a.get name = b.get name) : a = b := by
  obtain ⟨owner, group, dacl, sacl⟩ := a
  obtain ⟨owner', group', dacl', sacl'⟩ := b
  have howner : owner = owner' := h .owner
  have hgroup : group = group' := h .group
  have hdacl : dacl = dacl' := h .dacl
  have hsacl : sacl = sacl' := h .sacl
  rw [howner, hgroup, hdacl, hsacl]

/-- A run has one set of contents. -/
theorem Describes.unique {a b : Sections} {parts : List Section} (ha : a.Describes parts)
    (hb : b.Describes parts) : a = b := by
  apply ext_get
  intro name
  apply Option.ext
  intro content
  rw [ha name content, hb name content]

end Sections

namespace Sectioning

theorem rawText_eq {raw : RawSection} {part : Sections.Section} (h : Sections.Matches raw part) :
    rawText raw = Sections.sectionText part := by
  rw [rawText, h.1, h.2, Sections.sectionText]

theorem flatMap_rawText {raws : List RawSection} {parts : List Sections.Section}
    (h : List.Forall₂ Sections.Matches raws parts) :
    raws.flatMap rawText = parts.flatMap Sections.sectionText := by
  induction h with
  | nil => rfl
  | cons hmatch _ ih => rw [List.flatMap_cons, List.flatMap_cons, rawText_eq hmatch, ih]

/-- **A run of sections is cut into its sections.** -/
theorem foldlM_step_parts {parts : List Sections.Section}
    (h : ∀ part ∈ parts, Text.Enclosed part.2) {s : Sectioning} (hdepth : s.depth = 0) :
    ∃ raws position, List.Forall₂ Sections.Matches raws parts ∧
      (parts.flatMap Sections.sectionText).foldlM Sectioning.step s
        = .ok { s with position := position, sections := raws.reverse ++ s.sections } := by
  induction parts generalizing s with
  | nil => exact ⟨[], s.position, .nil, rfl⟩
  | cons part parts ih =>
      obtain ⟨start, p, hsection⟩ := foldlM_step_section part.1.isAlpha_letter
        (h part (List.mem_cons_self ..)) hdepth
      let next : Sectioning := { s with
        position := p
        sections := ⟨part.1.letter, start, part.2.reverse⟩ :: s.sections }
      obtain ⟨raws, position, hmatch, hrest⟩ :=
        ih (fun other hother => h other (List.mem_cons_of_mem _ hother)) (s := next) hdepth
      refine ⟨⟨part.1.letter, start, part.2.reverse⟩ :: raws, position,
        .cons ⟨rfl, List.reverse_reverse _⟩ hmatch, ?_⟩
      rw [List.flatMap_cons, List.foldlM_append, Sections.sectionText, hsection, Outcome.ok_bind,
        hrest, List.reverse_cons, List.append_assoc, List.singleton_append]

end Sectioning

/-! ### Matching sections with components -/

namespace Sections

theorem get_none (name : SectionName) : none.get name = .none := by cases name <;> rfl

theorem add_eq_ok_iff {sections next : Sections} {raw : RawSection} :
    sections.add raw = .ok next ↔ ∃ name, name.letter = raw.letter ∧ sections.get name = .none ∧
      next = sections.put raw.content.reverse name := by
  unfold add
  constructor
  · intro h
    split at h
    · cases h
    · rename_i name hname
      split at h
      · cases h
      · rename_i hfree
        cases h
        rw [Option.isSome_iff_ne_none] at hfree
        exact ⟨name, SectionName.ofLetter?_eq_some_iff.1 hname, Decidable.of_not_not hfree, rfl⟩
  · rintro ⟨name, hletter, hfree, rfl⟩
    rw [SectionName.ofLetter?_eq_some_iff.2 hletter]
    dsimp only
    rw [hfree]
    rfl

/-- The sections of a run, added one after another, have different names. -/
theorem exists_parts_of_foldlM {raws : List RawSection} {sections : Sections}
    (h : raws.foldlM add none = .ok sections) :
    ∃ parts, List.Forall₂ Matches raws parts ∧ (parts.map Prod.fst).Nodup ∧
      sections.Describes parts := by
  -- The invariant: the contents so far are those of the sections so far, whose names are different.
  refine Outcome.foldlM_invariant (fun sections raws => ∃ parts, List.Forall₂ Matches raws parts ∧
    (parts.map Prod.fst).Nodup ∧ sections.Describes parts) ?_ ?_ h
  · refine ⟨[], .nil, List.nodup_nil, ?_⟩
    intro name content
    rw [get_none]
    simp
  · rintro sections raws raw next ⟨parts, hmatch, hnodup, hdescribes⟩ hadd
    obtain ⟨name, hletter, hfree, rfl⟩ := add_eq_ok_iff.1 hadd
    have hnew : name ∉ parts.map Prod.fst := by
      intro hmem
      obtain ⟨⟨other, content⟩, hpart, rfl⟩ := List.mem_map.1 hmem
      rw [(hdescribes other content).2 hpart] at hfree
      cases hfree
    refine ⟨parts ++ [(name, raw.content.reverse)], ?_, ?_, ?_⟩
    · exact List.rel_append hmatch (.cons ⟨hletter.symm, rfl⟩ .nil)
    · rw [List.map_append, List.nodup_append]
      refine ⟨hnodup, List.pairwise_singleton _ _, ?_⟩
      rintro a ha b hb rfl
      rw [List.map_singleton, List.mem_singleton] at hb
      rw [hb] at ha
      exact hnew ha
    · intro other content
      rw [get_put, List.mem_append, List.mem_singleton, Prod.mk.injEq, ← hdescribes]
      split
      -- A new name was free, so its content is the new one; any other name keeps its content.
      · rename_i hsame
        subst hsame
        simp [hfree, eq_comm]
      · rename_i hother
        simp [Ne.symm hother]

/-- Sections of different names are all taken. -/
theorem foldlM_add {raws : List RawSection} {parts : List Section}
    (hmatch : List.Forall₂ Matches raws parts) (hnodup : (parts.map Prod.fst).Nodup)
    (sections : Sections) (hfree : ∀ part ∈ parts, sections.get part.1 = .none) :
    ∃ next, raws.foldlM add sections = .ok next ∧ ∀ name content, next.get name = some content
      ↔ sections.get name = some content ∨ (name, content) ∈ parts := by
  induction hmatch generalizing sections with
  | nil => exact ⟨sections, rfl, fun name content => by simp⟩
  | @cons raw part raws parts hraw _ ih =>
      rw [List.map_cons, List.nodup_cons] at hnodup
      obtain ⟨hnew, hnodup⟩ := hnodup
      have hhere : sections.get part.1 = .none := hfree part (List.mem_cons_self ..)
      have hadd : sections.add raw = .ok (sections.put part.2 part.1) :=
        add_eq_ok_iff.2 ⟨part.1, hraw.1.symm, hhere, by rw [hraw.2]⟩
      have hrest : ∀ other ∈ parts, (sections.put part.2 part.1).get other.1 = .none := by
        intro other hother
        have hne : part.1 ≠ other.1 := by
          intro heq
          exact hnew (heq ▸ List.mem_map_of_mem hother)
        rw [get_put, if_neg hne]
        exact hfree other (List.mem_cons_of_mem _ hother)
      obtain ⟨next, hrun, hnext⟩ := ih hnodup _ hrest
      refine ⟨next, ?_, ?_⟩
      · rw [List.foldlM_cons, hadd, Outcome.ok_bind, hrun]
      · intro name content
        rw [hnext, get_put, List.mem_cons]
        split
        · rename_i hsame
          subst hsame
          simp [hhere, Prod.ext_iff, eq_comm]
        · rename_i hother
          simp [Prod.ext_iff, Ne.symm hother]

/-- A run of different sections is accepted. -/
theorem exists_ofText_eq_ok {parts : List Section} (hnodup : (parts.map Prod.fst).Nodup)
    (henclosed : ∀ part ∈ parts, Text.Enclosed part.2) :
    ∃ sections, ofText (parts.flatMap sectionText) = .ok sections ∧ sections.Describes parts := by
  obtain ⟨raws, position, hmatch, hrun⟩ :=
    Sectioning.foldlM_step_parts henclosed (s := Sectioning.initial) rfl
  obtain ⟨sections, hadd, hsections⟩ := foldlM_add hmatch hnodup none
    (fun part _ => get_none part.1)
  refine ⟨sections, ?_, ?_⟩
  · refine Outcome.bind_eq_ok_iff.2 ⟨_, hrun, Outcome.bind_eq_ok_iff.2 ⟨raws, ?_, hadd⟩⟩
    simp [Sectioning.finish, Sectioning.initial]
  · intro name content
    rw [hsections, get_none]
    simp

/-- **The reader accepts exactly the runs of different sections.** -/
theorem ofText_eq_ok_iff {text : List Char} {sections : Sections} :
    ofText text = .ok sections ↔ ∃ parts : List Section, (parts.map Prod.fst).Nodup ∧
      (∀ part ∈ parts, Text.Enclosed part.2) ∧ text = parts.flatMap sectionText ∧
      sections.Describes parts := by
  constructor
  · intro h
    obtain ⟨sectioning, hrun, h₁⟩ := Outcome.bind_eq_ok_iff.1 h
    obtain ⟨raws, hfinish, hadd⟩ := Outcome.bind_eq_ok_iff.1 h₁
    obtain ⟨htext, henclosed⟩ := Sectioning.rawText_of_run hrun hfinish
    obtain ⟨parts, hmatch, hnodup, hdescribes⟩ := exists_parts_of_foldlM hadd
    refine ⟨parts, hnodup, ?_, ?_, hdescribes⟩
    · intro part hpart
      obtain ⟨raw, hraw, hmatch⟩ := Outcome.exists_mem_of_forall₂ hmatch hpart
      rw [← hmatch.2]
      exact henclosed raw hraw
    · rw [htext, Sectioning.flatMap_rawText hmatch]
  · rintro ⟨parts, hnodup, henclosed, rfl, hdescribes⟩
    obtain ⟨found, hread, hfound⟩ := exists_ofText_eq_ok hnodup henclosed
    rw [hread, hfound.unique hdescribes]

/-- What is written for a section that may be missing. -/
def optionText (name : SectionName) (content : Option (List Char)) : List Char :=
  content.elim [] fun content => sectionText (name, content)

/-- The sections that are there, among those with the given names. -/
def present (contents : SectionName → Option (List Char)) (names : List SectionName) :
    List Section :=
  names.filterMap fun name => (contents name).map fun content => (name, content)

theorem mem_present {contents : SectionName → Option (List Char)} {names : List SectionName}
    {name : SectionName} {content : List Char} :
    (name, content) ∈ present contents names ↔ name ∈ names ∧ contents name = some content := by
  simp only [present, List.mem_filterMap, Option.map_eq_some_iff, Prod.mk.injEq]
  constructor
  · rintro ⟨other, hother, content', hcontent, rfl, rfl⟩
    exact ⟨hother, hcontent⟩
  · rintro ⟨hname, hcontent⟩
    exact ⟨name, hname, content, hcontent, rfl, rfl⟩

theorem flatMap_present (contents : SectionName → Option (List Char)) (names : List SectionName) :
    (present contents names).flatMap sectionText
      = names.flatMap fun name => optionText name (contents name) := by
  induction names with
  | nil => rfl
  | cons name names ih =>
      rw [List.flatMap_cons, ← ih, present, List.filterMap_cons]
      cases contents name with
      | none => rfl
      | some content => rfl

theorem sublist_present (contents : SectionName → Option (List Char)) (names : List SectionName) :
    List.Sublist ((present contents names).map Prod.fst) names := by
  induction names with
  | nil => exact .slnil
  | cons name names ih =>
      rw [present, List.filterMap_cons]
      cases contents name with
      | none => exact ih.cons name
      | some content => exact ih.cons_cons name

/-- **What is written section by section is read section by section.** -/
theorem ofText_flatMap_optionText {sections : Sections}
    (h : ∀ name, ∀ content ∈ sections.get name, Text.Enclosed content) :
    ofText (SectionName.all.flatMap fun name => optionText name (sections.get name))
      = .ok sections := by
  have hall : ∀ name, name ∈ SectionName.all := by
    intro name
    cases name <;> decide
  refine ofText_eq_ok_iff.2 ⟨present sections.get SectionName.all, ?_, ?_, ?_, ?_⟩
  · exact (sublist_present sections.get SectionName.all).nodup (by decide)
  · rintro ⟨name, content⟩ hpart
    exact h name content (mem_present.1 hpart).2
  · exact (flatMap_present sections.get SectionName.all).symm
  · intro name content
    rw [mem_present]
    exact ⟨fun hcontent => ⟨hall name, hcontent⟩, fun hpart => hpart.2⟩

/-- **A text is a run of closed sections in one way.** -/
theorem parts_unique {a b : List Section} (ha : ∀ part ∈ a, Text.Enclosed part.2)
    (hb : ∀ part ∈ b, Text.Enclosed part.2)
    (h : a.flatMap sectionText = b.flatMap sectionText) : a = b := by
  obtain ⟨raws, p, hmatch, hrun⟩ :=
    Sectioning.foldlM_step_parts ha (s := Sectioning.initial) rfl
  obtain ⟨raws', p', hmatch', hrun'⟩ :=
    Sectioning.foldlM_step_parts hb (s := Sectioning.initial) rfl
  -- The two runs read the same text, so they find the same sections.
  rw [h, hrun'] at hrun
  have hraws : raws' = raws := by
    have hsections := congrArg Sectioning.sections (Except.ok.inj hrun)
    simpa [Sectioning.initial] using hsections
  subst hraws
  clear hrun hrun' h ha hb
  induction hmatch generalizing b with
  | nil => exact (List.forall₂_nil_left_iff.1 hmatch').symm
  | cons hpart _ ih =>
      obtain ⟨part', rest', hpart', hrest', rfl⟩ := List.forall₂_cons_left_iff.1 hmatch'
      have hname := SectionName.letter_inj (hpart.1.symm.trans hpart'.1)
      have hcontent := hpart.2.symm.trans hpart'.2
      rw [Prod.ext hname hcontent, ih hrest']

end Sections

end SecurityDescriptor
