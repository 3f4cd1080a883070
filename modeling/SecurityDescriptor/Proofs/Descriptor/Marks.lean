/-
The program that finds sections by position, against the reader.

The reader goes through the characters of a text and puts each one in its section.  The program
goes through the bytes, only writes down where the letters of the sections are, and cuts the text at
these positions in the end.  Both have found the same at every point: the letters of the program are
those of the sections, and each section starts where the one before it stops.  So what is cut out
between two letters is the content of a section, and no section stops before it starts.

Main definitions:

* `Sectioning.Follow` — sections that lie one behind the other;
* `Sectioning.Tracks` — **the invariant**: what the reader has found, with the positions;
* `Sections.toMarks` — what the program has written down at this point.

Main results:

* `Sectioning.Tracks.step` — one more character keeps the invariant;
* `Sections.foldlM_mark_char` — **the bytes of a character do what the character does**;
* `Sections.foldlM_mark` — the same for the rest of a text;
* `Sections.fill_eq` — the positions cut out the sections;
* `Sections.scan_eq` — **the program finds the sections that the reader finds** and never traps.
-/

import SecurityDescriptor.Proofs.Descriptor.Section
import SecurityDescriptor.Proofs.Text.Slice
import SecurityDescriptor.Scanning

set_option relaxedAutoImplicit false
set_option autoImplicit false

namespace SecurityDescriptor

open Checked

/-! ### What the reader has found -/

namespace Sectioning

/-- **Sections that lie one behind the other**, from a position on. -/
def Follow : Nat → List RawSection → Prop
  | _, [] => True
  | start, raw :: raws =>
      raw.letter.isAlpha = true ∧ raw.start = start ∧
        Follow (start + Text.width (rawText raw)) raws

theorem follow_append_singleton {start : Nat} {raws : List RawSection} {raw : RawSection} :
    Follow start (raws ++ [raw]) ↔ Follow start raws ∧ raw.letter.isAlpha = true ∧
      raw.start = start + Text.width (raws.flatMap rawText) := by
  induction raws generalizing start with
  | nil => simp [Follow]
  | cons first raws ih =>
      rw [List.cons_append, Follow, Follow, ih, List.flatMap_cons, Text.width_append,
        Nat.add_assoc]
      exact ⟨fun ⟨hletter, hstart, hrest, hlast⟩ => ⟨⟨hletter, hstart, hrest⟩, hlast⟩,
        fun ⟨⟨hletter, hstart, hrest⟩, hlast⟩ => ⟨hletter, hstart, hrest, hlast⟩⟩

/-- **What the reader has found** in the text that it has `read`: sections that lie one behind the
other, and a position that is the number of bytes read. -/
structure Tracks (s : Sectioning) (read : List Char) : Prop where
  reads : s.Reads read
  position : s.position = Text.width read
  /-- Every open parenthesis is a byte that was read. -/
  depth : s.depth ≤ Text.width read
  follow : Follow (Text.width s.lead) s.sections.reverse

theorem tracks_initial : initial.Tracks [] := ⟨reads_initial, rfl, Nat.le_refl 0, trivial⟩

theorem nest_le {depth next : Nat} {c : Char} (h : Text.nest depth c = some next) :
    next ≤ depth + 1 := by
  unfold Text.nest at h
  split at h
  · cases h
    exact Nat.le_refl _
  · split at h
    · split at h
      · cases h
      · cases h
        omega
    · split at h
      · cases h
      · cases h
        omega

/-- Nothing follows the current section, so its content makes no difference. -/
theorem follow_withCurrent {s : Sectioning}
    (h : Follow (Text.width s.lead) s.sections.reverse) (text : List Char) :
    Follow (Text.width (s.withCurrent text).lead) (s.withCurrent text).sections.reverse := by
  obtain ⟨depth, position, lead, sections⟩ := s
  cases sections with
  | nil => trivial
  | cons raw sections =>
      rw [List.reverse_cons, follow_append_singleton] at h
      simpa only [withCurrent, List.reverse_cons, follow_append_singleton] using h

theorem Tracks.push {s : Sectioning} {read : List Char} {c : Char} {depth : Nat}
    (h : s.Tracks read) (hdepth : Text.nest s.depth c = some depth) :
    Tracks { s.push c with depth := depth } (read ++ [c]) := by
  obtain ⟨hreads, hposition, hle, hfollow⟩ := h
  have hsize : 0 < c.utf8Size := c.utf8Size_pos
  have hnest := nest_le hdepth
  have hwidth : Text.width (read ++ [c]) = Text.width read + c.utf8Size := by simp
  refine ⟨hreads.push hdepth, ?_, ?_, follow_withCurrent hfollow _⟩
  · rw [hwidth, ← hposition]
    rfl
  · rw [hwidth]
    dsimp only
    omega

theorem Tracks.mark {s next : Sectioning} {read : List Char} (h : s.Tracks read)
    (hdepth : s.depth = 0) (hmark : s.mark = .ok next) : next.Tracks (read ++ [':']) := by
  obtain ⟨hreads, hposition, -, hfollow⟩ := h
  obtain ⟨letter, before, -, halpha, rfl⟩ := mark_eq_ok_iff.1 hmark
  have hsize := Text.utf8Size_of_isAlpha halpha
  have hreads' := hreads.mark hdepth hmark
  refine ⟨hreads', ?_, ?_, ?_⟩
  · rw [Text.width_append, hposition]
    rfl
  · have hzero : (s.withCurrent before).depth = 0 := by
      rw [← hdepth]
      obtain ⟨d, position, lead, sections⟩ := s
      cases sections <;> rfl
    dsimp only
    rw [hzero]
    exact Nat.zero_le _
  · -- The new section is the letter and the colon at the end of what was read.
    have hwidth := congrArg Text.width hreads'.text_eq
    simp only [Text.width_append, Text.width_reverse, List.reverse_cons, List.flatMap_append,
      List.flatMap_singleton, rawText, Text.width_cons, Text.width_nil, List.reverse_nil, hsize]
      at hwidth
    have hcolon : ':'.utf8Size = 1 := rfl
    rw [List.reverse_cons]
    refine follow_append_singleton.mpr ⟨follow_withCurrent hfollow before, halpha, ?_⟩
    dsimp only at hwidth ⊢
    omega

/-- **One more character keeps what was found.** -/
theorem Tracks.step {s next : Sectioning} {read : List Char} {c : Char} (h : s.Tracks read)
    (hstep : s.step c = .ok next) : next.Tracks (read ++ [c]) := by
  rcases step_eq_ok_iff.1 hstep with ⟨depth, hdepth, rfl⟩ | ⟨rfl, hdepth, hmark⟩
  · exact h.push hdepth
  · exact h.mark hdepth hmark

/-- The first section starts behind what was read before it. -/
theorem Tracks.start_eq {s : Sectioning} {read : List Char} (h : s.Tracks read) {raw : RawSection}
    {raws : List RawSection} (hsections : s.sections.reverse = raw :: raws) :
    raw.start = Text.width s.lead := by
  have hfollow := h.follow
  rw [hsections] at hfollow
  exact hfollow.2.1

/-- The last letter that was read is the last one of the current section: a section that was just
started follows a colon. -/
theorem Reads.filter_getLast? {s : Sectioning} {read : List Char} (h : s.Reads read) :
    read.getLast?.filter Char.isAlpha = s.current.head?.filter Char.isAlpha := by
  rw [h.text_eq]
  obtain ⟨d, position, lead, sections⟩ := s
  cases sections with
  | nil => simp [current]
  | cons raw sections =>
      cases hcontent : raw.content with
      | nil =>
          have hcolon : ':'.isAlpha = false := by decide
          simp [current, rawText, hcontent, hcolon, Option.filter]
      | cons c content =>
          have hlast : lead.reverse ++ (raw :: sections).reverse.flatMap rawText
              = (lead.reverse ++ sections.reverse.flatMap rawText
                ++ raw.letter :: ':' :: content.reverse) ++ [c] := by simp [rawText, hcontent]
          dsimp only [current]
          rw [hlast, List.getLast?_concat, hcontent]
          rfl

end Sectioning

/-! ### Going through the bytes -/

namespace Sections

open Sectioning

/-- **What the program has written down** when the reader has found this. -/
def toMarks (s : Sectioning) : Marks :=
  ⟨s.depth, s.sections.map fun raw => (raw.letter.toUInt8, raw.start)⟩

@[simp] theorem depth_toMarks (s : Sectioning) : (toMarks s).depth = s.depth := rfl

theorem reverse_letters_toMarks (s : Sectioning) :
    (toMarks s).letters.reverse
      = s.sections.reverse.map fun raw => (raw.letter.toUInt8, raw.start) := List.map_reverse.symm

theorem toMarks_push (s : Sectioning) (c : Char) (depth : Nat) :
    toMarks { s.push c with depth := depth } = { toMarks s with depth := depth } := by
  obtain ⟨d, position, lead, sections⟩ := s
  cases sections <;> rfl

theorem map_mark (s : Sectioning) :
    s.mark.map toMarks = match s.current.head?.filter Char.isAlpha with
      | some letter => .ok { toMarks s with
          letters := (letter.toUInt8, s.position - 1) :: (toMarks s).letters }
      | .none => .error (.descriptor .markWithoutLetter s.position) := by
  obtain ⟨d, position, lead, sections⟩ := s
  unfold Sectioning.mark
  cases hcurrent : current ⟨d, position, lead, sections⟩ with
  | nil => rfl
  | cons letter before =>
      dsimp only [List.head?_cons]
      by_cases halpha : letter.isAlpha = true
      · rw [if_pos halpha, Option.filter_some_pos halpha]
        cases sections <;> rfl
      · rw [if_neg halpha, Option.filter_some_neg (Bool.eq_false_iff.mpr halpha)]
        rfl

/-- The letter before a position is found from the last byte before it. -/
theorem letterBefore_eq (read rest : List Char) :
    letterBefore (Text.octets (read ++ rest)) (Text.width read)
      = pure ((read.getLast?.filter Char.isAlpha).map fun c =>
          (c.toUInt8, Text.width read - 1)) := by
  rcases List.eq_nil_or_concat read with rfl | ⟨front, c, rfl⟩
  · rfl
  · rw [List.concat_eq_append, List.getLast?_concat]
    have hsize : 0 < c.utf8Size := c.utf8Size_pos
    have hwidth : Text.width (front ++ [c]) = Text.width front + c.utf8Size := by simp
    have hlength : c.utf8Size - 1 < (String.utf8EncodeChar c).length := by
      rw [String.length_utf8EncodeChar]
      omega
    let last := (String.utf8EncodeChar c)[c.utf8Size - 1]
    have hbears : Text.Bears c last := Text.bears_of_mem (List.getElem_mem hlength)
    have hbyte : byte (Text.octets (front ++ [c] ++ rest)) (Text.width front + c.utf8Size - 1)
        = pure last := by
      apply byte_eq
      have hindex : Text.width front + c.utf8Size - 1
          = (Text.octets front).length + (c.utf8Size - 1) := by
        rw [Text.length_octets]
        omega
      rw [Text.octets_append, Text.octets_append, List.append_assoc, hindex,
        List.getElem?_append_right (Nat.le_add_right _ _), Nat.add_sub_cancel_left,
        Text.octets_cons, Text.octets_nil, List.append_nil, List.getElem?_append_left hlength,
        List.getElem?_eq_getElem hlength]
    have hletter : c.isAlpha = (Char.ofUInt8 last).isAlpha :=
      hbears.congr fun _ => Text.isAlpha_eq_false
    rw [hwidth, letterBefore, if_neg (by omega), sub_eq (by omega), pure_bind, hbyte, pure_bind,
      ← hletter]
    by_cases halpha : c.isAlpha = true
    · have hlast : last = c.toUInt8 :=
        (hbears.eq_iff (Text.toNat_lt_of_isAlpha halpha)).mp rfl
      rw [if_pos halpha, Option.filter_some_pos halpha, hlast]
      rfl
    · rw [if_neg halpha, Option.filter_some_neg (Bool.eq_false_iff.mpr halpha)]
      rfl

variable {s : Sectioning} {read : List Char}

/-- A great byte is passed over. -/
theorem mark_of_le {bytes : List UInt8} {marks : Marks} {b : UInt8} (h : 128 ≤ b.toNat)
    (position : Nat) : mark bytes marks (b, position) = pure marks := by
  have hne : ∀ c : Char, c.toNat < 128 → b ≠ c.toUInt8 := by
    rintro c hc rfl
    rw [Text.toNat_toUInt8 hc] at h
    omega
  rw [mark, if_neg (hne '(' (by decide)), if_neg (hne ')' (by decide)),
    if_neg (fun hcolon => hne ':' (by decide) hcolon.1)]

/-- A small character is looked at as the reader reads it. -/
theorem mark_toUInt8 (h : s.Tracks read) {c : Char} (hc : c.toNat < 128) {rest : List Char}
    (hlimit : Text.width (read ++ rest) + 1 < wordLimit) :
    mark (Text.octets (read ++ rest)) (toMarks s) (c.toUInt8, Text.width read)
      = settled ((s.step c).map toMarks) := by
  have hbears : Text.Bears c c.toUInt8 := Text.bears_of_mem (by
    rw [String.utf8EncodeChar_eq_singleton (Text.utf8Size_eq_one_iff_lt.mpr hc)]
    exact List.mem_singleton_self _)
  have heq : ∀ d : Char, d.toNat < 128 → (c.toUInt8 = d.toUInt8 ↔ c = d) := fun d hd =>
    (hbears.eq_iff hd).symm
  have hdepth := h.depth
  rw [Text.width_append] at hlimit
  simp only [mark, Sectioning.step, heq '(' (by decide), heq ')' (by decide), heq ':' (by decide)]
  rw [depth_toMarks]
  by_cases hopen : c = '('
  · rw [if_pos hopen, if_pos hopen, add_eq (by omega), pure_bind, Except.map, toMarks_push]
    rfl
  · rw [if_neg hopen, if_neg hopen]
    by_cases hclose : c = ')'
    · rw [if_pos hclose, if_pos hclose]
      cases hs : s.depth with
      | zero =>
          rw [if_pos rfl, h.position]
          rfl
      | succ depth =>
          rw [if_neg (Nat.succ_ne_zero depth), sub_eq (Nat.succ_le_succ (Nat.zero_le depth)),
            pure_bind]
          dsimp only
          rw [Except.map, toMarks_push]
          rfl
    · rw [if_neg hclose, if_neg hclose]
      by_cases hcolon : c = ':' ∧ s.depth = 0
      · rw [if_pos hcolon, if_pos hcolon, letterBefore_eq, pure_bind, h.reads.filter_getLast?,
          map_mark, h.position]
        cases s.current.head?.filter Char.isAlpha <;> rfl
      · rw [if_neg hcolon, if_neg hcolon, ← depth_push, Except.map, toMarks_push]
        rfl

/-- **The bytes of a character do what the character does.** -/
theorem foldlM_mark_char (h : s.Tracks read) (c : Char) {rest : List Char}
    (hlimit : Text.width (read ++ rest) + 1 < wordLimit) :
    ((String.utf8EncodeChar c).zipIdx (Text.width read)).foldlM
        (mark (Text.octets (read ++ rest))) (toMarks s)
      = settled ((s.step c).map toMarks) := by
  rcases Text.octets_cases c with ⟨hc, hbytes⟩ | ⟨hc, hbytes⟩
  · rw [hbytes]
    have hmark := mark_toUInt8 h hc hlimit
    rw [List.zipIdx_cons, List.foldlM_cons, hmark]
    exact bind_pure _
  · -- A great character is none of those that the reader looks for.
    have hne : ∀ d : Char, d.toNat < 128 → c ≠ d := by
      rintro d hd rfl
      omega
    have hstep : s.step c = .ok { s.push c with depth := s.depth } := by
      rw [Sectioning.step, if_neg (hne '(' (by decide)), if_neg (hne ')' (by decide)),
        if_neg (fun hcolon => hne ':' (by decide) hcolon.1), depth_push]
    have hpass : ∀ (bytes : List UInt8) (position : Nat), (∀ b ∈ bytes, 128 ≤ b.toNat) →
        (bytes.zipIdx position).foldlM (mark (Text.octets (read ++ rest))) (toMarks s)
          = pure (toMarks s) := by
      intro bytes
      induction bytes with
      | nil => exact fun _ _ => rfl
      | cons b bytes ih =>
          intro position hgreat
          obtain ⟨hb, hgreat⟩ := List.forall_mem_cons.mp hgreat
          rw [List.zipIdx_cons, List.foldlM_cons, mark_of_le hb, pure_bind, ih _ hgreat]
    rw [hpass _ _ hbytes, hstep, Except.map, toMarks_push]
    rfl

/-- **The rest of a text is searched as the reader reads it.** -/
theorem foldlM_mark (h : s.Tracks read) {rest : List Char}
    (hlimit : Text.width (read ++ rest) + 1 < wordLimit) :
    ((Text.octets rest).zipIdx (Text.width read)).foldlM
        (mark (Text.octets (read ++ rest))) (toMarks s)
      = settled ((rest.foldlM Sectioning.step s).map toMarks) := by
  induction rest generalizing s read with
  | nil => rfl
  | cons c rest ih =>
      rw [Text.octets_cons, List.zipIdx_append, List.foldlM_append, foldlM_mark_char h c hlimit,
        String.length_utf8EncodeChar, List.foldlM_cons]
      cases hstep : s.step c with
      | error e => rfl
      | ok next =>
          have hread : read ++ c :: rest = read ++ [c] ++ rest := by simp
          have hwidth : Text.width read + c.utf8Size = Text.width (read ++ [c]) := by simp
          rw [Except.map, settled_ok, pure_bind, hread, hwidth, ih (h.step hstep) (hread ▸ hlimit)]
          rfl

/-! ### Cutting the sections out -/

/-- **The positions cut out the sections.** -/
theorem fill_eq {front : List Char} {raws : List RawSection}
    (h : Follow (Text.width front) raws)
    (hlimit : Text.width (front ++ raws.flatMap rawText) + 2 < wordLimit) (sections : Sections) :
    fill (front ++ raws.flatMap rawText) sections
        (raws.map fun raw => (raw.letter.toUInt8, raw.start))
      = settled (raws.foldlM Sections.add sections) := by
  induction raws generalizing front sections with
  | nil => rfl
  | cons raw raws ih =>
      obtain ⟨hletter, hstart, hrest⟩ := h
      rw [← Text.width_append] at hrest
      have hsize := Text.utf8Size_of_isAlpha hletter
      have hcolon : ':'.utf8Size = 1 := rfl
      -- The section stops where the next one starts, or at the end of the text.
      have hstop : ((raws.map fun raw => (raw.letter.toUInt8, raw.start)).head?.map Prod.snd).getD
            (Text.width (front ++ (raw :: raws).flatMap rawText))
          = Text.width (front ++ rawText raw) := by
        cases raws with
        | nil => rw [List.flatMap_singleton]; rfl
        | cons next raws => exact hrest.2.1
      have hlead : Text.width (front ++ [raw.letter, ':']) = raw.start + 2 := by
        simp only [Text.width_append, Text.width_cons, Text.width_nil, hsize, hcolon, hstart]
      have htext : front ++ (raw :: raws).flatMap rawText
          = front ++ [raw.letter, ':'] ++ raw.content.reverse ++ raws.flatMap rawText := by
        simp [rawText]
      have hpiece : front ++ rawText raw = front ++ [raw.letter, ':'] ++ raw.content.reverse := by
        simp [rawText]
      have hwithin : within (front ++ (raw :: raws).flatMap rawText) (raw.start + 2)
          (Text.width (front ++ rawText raw)) = pure raw.content.reverse := by
        rw [htext, hpiece, ← hlead, within_append]
      have hraw : (⟨Char.ofUInt8 raw.letter.toUInt8, raw.start, raw.content.reverse.reverse⟩
          : RawSection) = raw := by
        rw [Text.ofUInt8_toUInt8 (Text.toNat_lt_of_isAlpha hletter), List.reverse_reverse]
      have hle : raw.start + 2 ≤ Text.width (front ++ rawText raw) := by
        rw [hpiece, Text.width_append, hlead]
        exact Nat.le_add_right _ _
      have hfirst : Checked.add raw.start 2 = pure (raw.start + 2) := by
        apply add_eq
        rw [htext, Text.width_append, Text.width_append, hlead] at hlimit
        omega
      have hbehind : front ++ (raw :: raws).flatMap rawText
          = front ++ rawText raw ++ raws.flatMap rawText := by simp
      rw [List.map_cons, fill, hstop, hfirst, pure_bind, if_neg (Nat.not_lt.mpr hle), hwithin,
        pure_bind, hraw, List.foldlM_cons]
      cases hadd : sections.add raw with
      | error e => rfl
      | ok next =>
          rw [settled_ok, pure_bind, hbehind, ih hrest (hbehind ▸ hlimit)]
          rfl

/-- Sections without anything before them are cut out of the text. -/
theorem fill_of_lead_nil {text : List Char} (h : s.Tracks text) (hlead : s.lead = [])
    (hlimit : Text.width text + 2 < wordLimit) :
    fill text none (s.sections.reverse.map fun raw => (raw.letter.toUInt8, raw.start))
      = settled (s.sections.reverse.foldlM Sections.add none) := by
  have htext := h.reads.text_eq
  have hfollow := h.follow
  rw [hlead] at htext hfollow
  subst htext
  exact fill_eq hfollow hlimit none

/-- **The program finds the sections that the reader finds**, and never traps. -/
theorem scan_eq {text : List Char} (h : Text.width text < sliceLimit) :
    scan text = settled (ofText text) := by
  have hlimit := sliceLimit_add_le
  have hmarks : ((Text.octets text).zipIdx).foldlM (mark (Text.octets text)) ⟨0, []⟩
      = settled ((text.foldlM Sectioning.step Sectioning.initial).map toMarks) :=
    foldlM_mark tracks_initial (by rw [List.nil_append]; omega)
  rw [scan, hmarks, ofText]
  cases hrun : text.foldlM Sectioning.step Sectioning.initial with
  | error e => rfl
  | ok s =>
      have htracks : s.Tracks text := Outcome.foldlM_invariant Tracks tracks_initial
        (fun _ _ _ _ hread hstep => hread.step hstep) hrun
      rw [Except.map, settled_ok, pure_bind, Outcome.ok_bind, finish, depth_toMarks]
      by_cases hdepth : s.depth = 0
      · rw [if_neg (not_not.mpr hdepth), if_neg (not_not.mpr hdepth), reverse_letters_toMarks]
        by_cases hlead : s.lead = []
        · have hfill := fill_of_lead_nil htracks hlead (by omega)
          rw [if_neg (not_not.mpr hlead)]
          cases hsections : s.sections.reverse with
          | nil =>
              have htext := htracks.reads.text_eq
              rw [hlead, hsections] at htext
              rw [htext]
              rfl
          | cons raw raws =>
              have hstart := htracks.start_eq hsections
              rw [hlead, Text.width_nil] at hstart
              rw [hsections, List.map_cons, hstart] at hfill
              rw [List.map_cons, hstart]
              exact hfill
        · rw [if_pos hlead]
          cases hsections : s.sections.reverse with
          | nil =>
              have hne : text ≠ [] := by
                rw [htracks.reads.text_eq, hsections, List.flatMap_nil, List.append_nil]
                exact List.reverse_ne_nil_iff.mpr hlead
              dsimp only [List.map_nil, List.head?_nil]
              rw [if_neg hne]
              rfl
          | cons raw raws =>
              have hpositive : raw.start ≠ 0 := by
                rw [htracks.start_eq hsections, Ne, Text.width_eq_zero_iff]
                exact hlead
              obtain ⟨start, hstart⟩ := Nat.exists_eq_add_one_of_ne_zero hpositive
              rw [List.map_cons, hstart]
              rfl
      · rw [if_pos hdepth, if_pos hdepth, htracks.position]
        rfl

end Sections

end SecurityDescriptor
