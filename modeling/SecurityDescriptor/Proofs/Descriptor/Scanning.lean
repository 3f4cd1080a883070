/-
The program that reads descriptors from text by position, against the reader.

The sections are pieces of the text, so they are no longer than the text, and each of them is read
by a program of its own.

Main results:

* `Sections.width_lt_of_ofText` — a section is no longer than the text;
* `Descriptor.scanListSection_eq` — the program that reads a list section;
* `Descriptor.scan_eq` — **the program comes to what the reader reads** and never traps.
-/

import SecurityDescriptor.Proofs.AccessList.Scanning
import SecurityDescriptor.Proofs.Descriptor.ListSection
import SecurityDescriptor.Proofs.Descriptor.Marks

set_option relaxedAutoImplicit false
set_option autoImplicit false

namespace SecurityDescriptor

open Checked

/-- A section is no longer than the text. -/
theorem Sections.width_lt_of_ofText {limit : Nat} {text : List Char} {sections : Sections}
    (h : Text.width text < limit) (hsections : ofText text = .ok sections) (name : SectionName) :
    ∀ content ∈ sections.get name, Text.width content < limit := by
  obtain ⟨parts, -, -, rfl, hdescribes⟩ := ofText_eq_ok_iff.mp hsections
  intro content hcontent
  have hmem := (hdescribes name content).mp hcontent
  obtain ⟨front, back, rfl⟩ := List.append_of_mem hmem
  rw [List.flatMap_append, List.flatMap_cons, sectionText] at h
  simp only [Text.width_append, Text.width_cons] at h
  omega

namespace Descriptor

variable {decode : HexDecoder}

theorem scanPrincipal_eq {content : List Char} (h : Text.width content < sliceLimit) :
    scanPrincipal content = settled (parsePrincipal content) := by
  rw [scanPrincipal, parsePrincipal]
  split
  · rfl
  · exact Sid.scan_eq h

theorem scanListSection_eq (hdecode : decode.DecodesPairs) (side : ListSide) {content : List Char}
    (h : Text.width content < sliceLimit) :
    scanListSection decode side content = Looping.settled (parseListSection side content) := by
  have hbody : Text.width (content.dropWhile (· != '(')) < sliceLimit := by
    rw [← List.takeWhile_append_dropWhile (p := (· != '(')) (l := content), Text.width_append] at h
    omega
  have hsplit : (Text.find? '(' content).getD (Text.width content)
      = Text.width (content.takeWhile (· != '(')) := Text.getD_find? '(' content
  rw [scanListSection, parseListSection]
  dsimp only
  rw [cut_find?, hsplit, Looping.lift_pure, pure_bind]
  dsimp only
  rw [Token.scan_eq ListMark.separable_tokens.1, pure_bind]
  cases Token.run? ListMark.tokens (content.takeWhile (· != '(')) with
  | none => rfl
  | some tokens =>
      rw [required_some, Looping.lift_pure, pure_bind]
      dsimp only
      split
      · split <;> rfl
      · split
        · rfl
        · rw [AccessList.scan_eq hdecode hbody]
          cases AccessList.parse (content.dropWhile (· != '(')) <;> rfl

theorem scanSection_eq {α : Type} {scan : List Char → Looping α}
    {parse : List Char → Except Error α} {content : Option (List Char)}
    (h : ∀ text ∈ content, scan text = Looping.settled (parse text)) :
    scanSection scan content = Looping.settled (parseSection parse content) := by
  cases content with
  | none => rfl
  | some text =>
      rw [scanSection, parseSection, h text rfl]
      cases parse text <;> rfl

/-- **The program comes to what the reader reads**, and never traps. -/
theorem scan_eq (hdecode : decode.DecodesPairs) {text : List Char}
    (h : Text.width text < sliceLimit) :
    scan decode text = Looping.settled (parse text) := by
  rw [scan, parse, Sections.scan_eq h, Looping.lift_settled]
  cases hsections : Sections.ofText text with
  | error e => rfl
  | ok sections =>
      have hwidth := Sections.width_lt_of_ofText h hsections
      have hprincipal : ∀ name, ∀ content ∈ sections.get name,
          (scanPrincipal content : Looping Sid) = Looping.settled (parsePrincipal content) := by
        intro name content hcontent
        rw [scanPrincipal_eq (hwidth name content hcontent), Looping.lift_settled]
      have hlist : ∀ side name, ∀ content ∈ sections.get name,
          scanListSection decode side content = Looping.settled (parseListSection side content) :=
        fun side name content hcontent =>
          scanListSection_eq hdecode side (hwidth name content hcontent)
      rw [Looping.settled_ok, pure_bind, Outcome.ok_bind]
      refine Looping.bind_eq_settled (scanSection_eq (hprincipal .owner)) fun owner => ?_
      refine Looping.bind_eq_settled (scanSection_eq (hprincipal .group)) fun group => ?_
      refine Looping.bind_eq_settled (scanSection_eq (hlist .discretionary .dacl)) fun dacl => ?_
      exact Looping.bind_eq_settled (scanSection_eq (hlist .system .sacl)) fun sacl => rfl

end Descriptor

end SecurityDescriptor
