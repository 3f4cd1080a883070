/-
**The texts of identifiers are a language of their own.**

Besides the abbreviations there is one long form: a lead, the revision, an authority and any number
of sub-authorities, with hyphens between them.  The authority may be written in either base and all
numerals with leading zeros.  The reader accepts this language and nothing else; in particular no
component may be empty or bear a sign.  What an identifier has too many or too much of is found
while its text is read, so an identifier that is refused is never refused for its parts.

Main definitions:

* `Sid.AuthoritySpelling` — the texts of an authority;
* `Sid.Spelling` — the texts of an identifier.

Main results:

* `Sid.parseAuthority_eq_ok_iff`, `Sid.parseSubAuthorities_eq_ok_iff` — **the numeric components are
  read exactly from their numerals**;
* `Sid.parse_eq_ok_iff` — **a text is read as an identifier exactly if it spells it**;
* `Sid.exists_fault_of_parse` — what is refused for any other reason is a malformed identifier;
* `Sid.parse_grammar` — the text form as a whole.
-/

import SecurityDescriptor.Proofs.Sid.Text

set_option relaxedAutoImplicit false
set_option autoImplicit false

namespace SecurityDescriptor

namespace Sid

/-! ### The language -/

/-- The texts of an authority: decimal digits, or hexadecimal digits behind a mark. -/
inductive AuthoritySpelling : List Char → Nat → Prop
  | decimal {digits : List Char} {n : Nat} (h : Numeral.Spells 10 digits n) :
      AuthoritySpelling digits n
  | hexadecimal {x : Char} {digits : List Char} {n : Nat} (hx : x = 'x' ∨ x = 'X')
      (h : Numeral.Spells 16 digits n) : AuthoritySpelling ('0' :: x :: digits) n

/-- The texts of sub-authorities, one decimal numeral for each. -/
abbrev SubAuthoritySpellings : List (List Char) → List UInt32 → Prop :=
  List.Forall₂ fun digits sub => Numeral.Spells 10 digits sub.toNat

/-- **The texts of an identifier**: its abbreviations and its long forms. -/
inductive Spelling : List Char → Sid → Prop
  | abbreviation {row : Abbreviation} {s : Sid} (hrow : row ∈ abbreviations)
      (hauthority : s.authority = row.authority)
      (hsubs : s.subAuthorities = row.subAuthorities) : Spelling row.token.toList s
  | long {lead : Char} {authority : List Char} {subs : List (List Char)} {s : Sid}
      (hlead : lead = 'S' ∨ lead = 's') (hauthority : AuthoritySpelling authority s.authority)
      (hsubs : SubAuthoritySpellings subs s.subAuthorities) :
      Spelling (lead :: '-' :: '1' :: '-' :: (authority ++ subs.flatMap ('-' :: ·))) s

/-! ### Numeric components -/

/-- Decimal digits are not taken for the beginning of a hexadecimal number. -/
theorem authorityDigits_of_isNumeral {text : List Char} (h : Numeral.IsNumeral 10 text) :
    authorityDigits text = (10, text) := by
  unfold authorityDigits
  split
  · exact absurd (h 'x' (by simp)) (by decide)
  · exact absurd (h 'X' (by simp)) (by decide)
  · rfl

/-- The digits of an authority, in the base in which they are written, spell it. -/
theorem authoritySpelling_iff {text : List Char} {n : Nat} :
    AuthoritySpelling text n
      ↔ Numeral.Spells (authorityDigits text).1 (authorityDigits text).2 n := by
  constructor
  · intro h
    cases h with
    | decimal h => rwa [authorityDigits_of_isNumeral h.2.1]
    | hexadecimal hx h => rcases hx with rfl | rfl <;> exact h
  · intro h
    unfold authorityDigits at h
    split at h
    · exact .hexadecimal (.inl rfl) h
    · exact .hexadecimal (.inr rfl) h
    · exact .decimal h

/-- **An authority is read exactly from its texts.** -/
theorem parseAuthority_eq_ok_iff {start n : Nat} {component : List Char} :
    parseAuthority start component = .ok n ↔ AuthoritySpelling component n ∧ n ≤ maxAuthority := by
  have hbase : 0 < (authorityDigits component).1 := (isWord_of_authorityDigits rfl).1
  have hlimit : maxAuthority ≤ UInt64.size - 1 := by decide
  rw [authoritySpelling_iff, parseAuthority]
  dsimp only
  cases hread : Numeral.read? (authorityDigits component).1 (UInt64.size - 1)
      (authorityDigits component).2 with
  | none =>
      constructor
      · intro h
        cases h
      · rintro ⟨hspells, hle⟩
        rw [(Numeral.read?_eq_some_iff_spells hbase).mpr ⟨hspells, Nat.le_trans hle hlimit⟩]
          at hread
        cases hread
  | some value =>
      obtain ⟨hvalue, -⟩ := (Numeral.read?_eq_some_iff_spells hbase).mp hread
      dsimp only
      constructor
      · intro h
        split at h
        · rename_i hle
          cases h
          exact ⟨hvalue, hle⟩
        · cases h
      · rintro ⟨hspells, hle⟩
        rw [hvalue.unique hspells, if_pos hle]

/-- **Sub-authorities are read exactly from their numerals**, as long as there is room. -/
theorem parseSubAuthorities_eq_ok_iff {room start : Nat} {components : List (List Char)}
    {subs : List UInt32} :
    parseSubAuthorities room start components = .ok subs
      ↔ SubAuthoritySpellings components subs ∧ components.length ≤ room := by
  induction components generalizing room start subs with
  | nil =>
      rw [parseSubAuthorities]
      simp [eq_comm]
  | cons component components ih =>
      have hword : ∀ sub : UInt32, (Numeral.read? 10 (UInt32.size - 1) component).map UInt32.ofNat
          = some sub ↔ Numeral.Spells 10 component sub.toNat :=
        fun _ => Numeral.map_read?_eq_some_iff (by decide)
      rw [parseSubAuthorities.eq_def]
      dsimp only
      simp only [List.forall₂_cons_left_iff, ← hword]
      cases Numeral.read? 10 (UInt32.size - 1) component with
      | none => simp
      | some value =>
          cases room with
          | zero => simp
          | succ room =>
              simp only [Outcome.bind_eq_ok_iff, Outcome.pure_eq_ok_iff, ih, List.length_cons,
                Nat.add_le_add_iff_right, Option.map_some, Option.some.injEq]
              constructor
              · rintro ⟨values, ⟨hspells, hle⟩, rfl⟩
                exact ⟨⟨_, values, rfl, hspells, rfl⟩, hle⟩
              · rintro ⟨⟨_, values, rfl, hspells, rfl⟩, hle⟩
                exact ⟨values, ⟨hspells, hle⟩, rfl⟩

/-! ### The long form -/

theorem AuthoritySpelling.isWord {text : List Char} {n : Nat} (h : AuthoritySpelling text n) :
    Text.IsWord text := by
  obtain ⟨-, hword⟩ :=
    isWord_of_authorityDigits (show authorityDigits text = (_, (authorityDigits text).2) from rfl)
  exact hword (Numeral.isWord_of_isNumeral (authoritySpelling_iff.mp h).2.1)

theorem isWord_of_mem_subs {components : List (List Char)} {subs : List UInt32}
    (h : SubAuthoritySpellings components subs) :
    ∀ component ∈ components, Text.IsWord component := by
  induction h with
  | nil => exact fun _ h => (List.not_mem_nil h).elim
  | cons hsub _ ih => exact List.forall_mem_cons.mpr ⟨Numeral.isWord_of_isNumeral hsub.2.1, ih⟩

/-- A long form is cut at its hyphens into the lead, the revision, the authority and the
sub-authorities. -/
theorem splitOn_long_iff {text authority : List Char} {lead : Char} {subs : List (List Char)}
    {n : Nat} {words : List UInt32} (hlead : lead = 'S' ∨ lead = 's')
    (hauthority : AuthoritySpelling authority n) (hsubs : SubAuthoritySpellings subs words) :
    text.splitOn '-' = [lead] :: ['1'] :: authority :: subs
      ↔ text = lead :: '-' :: '1' :: '-' :: (authority ++ subs.flatMap ('-' :: ·)) := by
  have hfree : ∀ piece ∈ [lead] :: ['1'] :: authority :: subs, '-' ∉ piece := by
    simp only [List.forall_mem_cons]
    refine ⟨?_, by decide, hauthority.isWord.not_mem (by decide), ?_⟩
    · rcases hlead with rfl | rfl <;> decide
    · exact fun piece hpiece => (isWord_of_mem_subs hsubs piece hpiece).not_mem (by decide)
  rw [Text.splitOn_eq_cons_iff hfree]
  simp

/-- Components that are not those of a long form are refused at once. -/
theorem parseComponents_shape (width : Nat) (components : List (List Char)) :
    (∃ lead authority subs, (lead = 'S' ∨ lead = 's') ∧
        components = [lead] :: ['1'] :: authority :: subs)
    ∨ ∃ fault offset, parseComponents width components = .error (.identifier fault offset) := by
  unfold parseComponents
  split
  · split
    · rename_i hlead
      split
      · exact .inr ⟨_, _, rfl⟩
      · split
        · exact .inr ⟨_, _, rfl⟩
        · rename_i hrevision
          rw [Decidable.of_not_not hrevision]
          split
          · exact .inr ⟨_, _, rfl⟩
          · rename_i authority subs
            rcases hlead with rfl | rfl
            · exact .inl ⟨'S', authority, subs, .inl rfl, rfl⟩
            · exact .inl ⟨'s', authority, subs, .inr rfl, rfl⟩
    · exact .inr ⟨_, _, rfl⟩
  · exact .inr ⟨_, _, rfl⟩

theorem parseComponents_long {lead : Char} (hlead : lead = 'S' ∨ lead = 's') (width : Nat)
    (authority : List Char) (subs : List (List Char)) :
    parseComponents width ([lead] :: ['1'] :: authority :: subs) = (do
      let value ← parseAuthority 4 authority
      let values ← parseSubAuthorities maxCount (4 + Text.width authority + 1) subs
      make value values) := by
  have hlead : [lead] = ['S'] ∨ [lead] = ['s'] := by simpa using hlead
  rw [parseComponents, if_pos hlead, if_neg (fun h => h rfl)]

/-- The components of a long form are read exactly from their texts. -/
theorem parseComponents_eq_ok_iff {width : Nat} {components : List (List Char)} {s : Sid} :
    parseComponents width components = .ok s
      ↔ ∃ lead authority subs, (lead = 'S' ∨ lead = 's') ∧
          components = [lead] :: ['1'] :: authority :: subs ∧
          AuthoritySpelling authority s.authority ∧ SubAuthoritySpellings subs s.subAuthorities := by
  constructor
  · intro h
    rcases parseComponents_shape width components with
      ⟨lead, authority, subs, hlead, rfl⟩ | ⟨fault, offset, herror⟩
    · rw [parseComponents_long hlead] at h
      obtain ⟨value, hvalue, h⟩ := Outcome.bind_eq_ok_iff.mp h
      obtain ⟨values, hvalues, h⟩ := Outcome.bind_eq_ok_iff.mp h
      obtain ⟨rfl, rfl⟩ := make_eq_ok_iff.mp h
      exact ⟨lead, authority, subs, hlead, rfl, (parseAuthority_eq_ok_iff.mp hvalue).1,
        (parseSubAuthorities_eq_ok_iff.mp hvalues).1⟩
    · rw [herror] at h
      cases h
  · rintro ⟨lead, authority, subs, hlead, rfl, hauthority, hsubs⟩
    have hcount : subs.length ≤ maxCount := hsubs.length_eq ▸ s.count_le
    rw [parseComponents_long hlead, parseAuthority_eq_ok_iff.mpr ⟨hauthority, s.authority_le⟩,
      Outcome.ok_bind, parseSubAuthorities_eq_ok_iff.mpr ⟨hsubs, hcount⟩, Outcome.ok_bind,
      make_parts]

/-! ### Abbreviations -/

/-- No abbreviation stands for two identifiers. -/
theorem abbreviated?_eq_some_iff {text : List Char} {row : Abbreviation} :
    abbreviated? text = some row ↔ row ∈ abbreviations ∧ row.token.toList = text := by
  constructor
  · intro h
    have hfind : abbreviations.find? (fun row => row.token.toList == text) = some row := h
    have htoken := List.find?_some hfind
    exact ⟨List.mem_of_find?_eq_some hfind, eq_of_beq htoken⟩
  · rintro ⟨hrow, rfl⟩
    have hall : ∀ row ∈ abbreviations, abbreviated? row.token.toList = some row := by
      decide +kernel
    exact hall row hrow

theorem isDomainAbbreviation_iff {text : List Char} :
    isDomainAbbreviation text = true ↔ ∃ token ∈ domainAbbreviations, token.toList = text := by
  simp [isDomainAbbreviation]

/-- What is an abbreviation without a domain is none that needs a domain. -/
theorem abbreviated?_of_mem_domainAbbreviations {token : String}
    (h : token ∈ domainAbbreviations) : abbreviated? token.toList = none := by
  have hall : ∀ token ∈ domainAbbreviations, abbreviated? token.toList = none := by
    decide +kernel
  exact hall token h

/-- Every abbreviation stands for an identifier. -/
theorem exists_of_mem_abbreviations {row : Abbreviation} (h : row ∈ abbreviations) :
    ∃ s : Sid, s.authority = row.authority ∧ s.subAuthorities = row.subAuthorities := by
  have hall : ∀ row ∈ abbreviations,
      row.authority ≤ maxAuthority ∧ row.subAuthorities.length ≤ maxCount := by decide +kernel
  exact ⟨⟨row.authority, row.subAuthorities, (hall row h).1, (hall row h).2⟩, rfl, rfl⟩

/-! ### What is accepted -/

/-- A text spells an identifier in the way that its reader finds out: by the table if it is an
abbreviation, and by its components otherwise. -/
theorem spelling_iff {text : List Char} {s : Sid} :
    Spelling text s
      ↔ match abbreviated? text with
        | some row => s.authority = row.authority ∧ s.subAuthorities = row.subAuthorities
        | none => ∃ lead authority subs, (lead = 'S' ∨ lead = 's') ∧
            text.splitOn '-' = [lead] :: ['1'] :: authority :: subs ∧
            AuthoritySpelling authority s.authority ∧
            SubAuthoritySpellings subs s.subAuthorities := by
  constructor
  · intro h
    cases h with
    | abbreviation hrow hauthority hsubs =>
        rw [abbreviated?_eq_some_iff.mpr ⟨hrow, rfl⟩]
        exact ⟨hauthority, hsubs⟩
    | @long lead authority subs _ hlead hauthority hsubs =>
        rw [abbreviated?_eq_none (List.mem_cons_of_mem _ (List.mem_cons_self ..))]
        exact ⟨lead, authority, subs, hlead, (splitOn_long_iff hlead hauthority hsubs).mpr rfl,
          hauthority, hsubs⟩
  · intro h
    split at h
    · rename_i row hrow
      obtain ⟨hmem, rfl⟩ := abbreviated?_eq_some_iff.mp hrow
      exact .abbreviation hmem h.1 h.2
    · obtain ⟨lead, authority, subs, hlead, htext, hauthority, hsubs⟩ := h
      rw [(splitOn_long_iff hlead hauthority hsubs).mp htext]
      exact .long hlead hauthority hsubs

/-- An abbreviation that needs a domain is cut into itself alone. -/
theorem splitOn_of_isDomainAbbreviation {text : List Char} (h : isDomainAbbreviation text = true) :
    text.splitOn '-' = [text] := by
  obtain ⟨token, htoken, rfl⟩ := isDomainAbbreviation_iff.mp h
  exact List.splitOn_eq_singleton ((isWord_of_mem_domainAbbreviations htoken).not_mem (by decide))

/-- **A text is read as an identifier exactly if it spells it.** -/
theorem parse_eq_ok_iff {text : List Char} {s : Sid} : parse text = .ok s ↔ Spelling text s := by
  rw [spelling_iff, parse]
  cases habbreviated : abbreviated? text with
  | some row => exact make_eq_ok_iff
  | none =>
      dsimp only
      split
      · rename_i hdomain
        simp [splitOn_of_isDomainAbbreviation hdomain]
      · exact parseComponents_eq_ok_iff

/-! ### What is refused -/

theorem exists_fault_of_parseAuthority {start : Nat} {component : List Char} {e : Error}
    (h : parseAuthority start component = .error e) :
    ∃ fault offset, e = .identifier fault offset := by
  unfold parseAuthority at h
  dsimp only at h
  split at h
  · cases h
    exact ⟨_, _, rfl⟩
  · split at h
    · cases h
    · cases h
      exact ⟨_, _, rfl⟩

theorem exists_fault_of_parseSubAuthorities {room start : Nat} {components : List (List Char)}
    {e : Error} (h : parseSubAuthorities room start components = .error e) :
    ∃ fault offset, e = .identifier fault offset := by
  induction components generalizing room start with
  | nil => simp [parseSubAuthorities] at h
  | cons component components ih =>
      rw [parseSubAuthorities.eq_def] at h
      dsimp only at h
      split at h
      · cases h
        exact ⟨_, _, rfl⟩
      · split at h
        · cases h
          exact ⟨_, _, rfl⟩
        · rcases Outcome.bind_eq_error_iff.mp h with h | ⟨_, -, h⟩
          · exact ih h
          · cases h

/-- The components of a long form fail as they are read; the parts that are left at the end always
make an identifier. -/
theorem exists_fault_of_parseComponents {width : Nat} {components : List (List Char)} {e : Error}
    (h : parseComponents width components = .error e) :
    ∃ fault offset, e = .identifier fault offset := by
  rcases parseComponents_shape width components with
    ⟨lead, authority, subs, hlead, rfl⟩ | ⟨fault, offset, herror⟩
  · rw [parseComponents_long hlead] at h
    rcases Outcome.bind_eq_error_iff.mp h with h | ⟨value, hvalue, h⟩
    · exact exists_fault_of_parseAuthority h
    · rcases Outcome.bind_eq_error_iff.mp h with h | ⟨values, hvalues, h⟩
      · exact exists_fault_of_parseSubAuthorities h
      · obtain ⟨hsubs, hcount⟩ := parseSubAuthorities_eq_ok_iff.mp hvalues
        have hauthority := (parseAuthority_eq_ok_iff.mp hvalue).2
        rw [make, dif_pos hauthority, dif_pos (hsubs.length_eq ▸ hcount)] at h
        cases h
  · rw [herror] at h
    cases h
    exact ⟨fault, offset, rfl⟩

/-- What is refused is malformed, unless it needs a domain. -/
theorem exists_fault_of_parse {text : List Char} (hspelling : ∀ s, ¬Spelling text s)
    (hdomain : ∀ token ∈ domainAbbreviations, token.toList ≠ text) :
    ∃ fault offset, parse text = .error (.identifier fault offset) := by
  have hnone : abbreviated? text = none := by
    refine Option.eq_none_iff_forall_ne_some.mpr fun row hrow => ?_
    obtain ⟨hmem, rfl⟩ := abbreviated?_eq_some_iff.mp hrow
    obtain ⟨s, hauthority, hsubs⟩ := exists_of_mem_abbreviations hmem
    exact hspelling s (.abbreviation hmem hauthority hsubs)
  have hlong : isDomainAbbreviation text = false := by
    rw [← Bool.not_eq_true, isDomainAbbreviation_iff]
    rintro ⟨token, htoken, htext⟩
    exact hdomain token htoken htext
  have hparse : parse text = parseComponents (Text.width text) (text.splitOn '-') := by
    rw [parse, hnone]
    simp [hlong]
  cases hread : parseComponents (Text.width text) (text.splitOn '-') with
  | ok s => exact absurd (parse_eq_ok_iff.mp (hparse.trans hread)) (hspelling s)
  | error e =>
      obtain ⟨fault, offset, rfl⟩ := exists_fault_of_parseComponents hread
      exact ⟨fault, offset, hparse.trans hread⟩

/-- An abbreviation that needs a domain is refused as such. -/
theorem parse_domainAbbreviation {token : String} (h : token ∈ domainAbbreviations) :
    parse token.toList = .error (.unsupportedForm .domainAbbreviation token) := by
  have hdomain := isDomainAbbreviation_iff.mpr ⟨token, h, rfl⟩
  rw [parse, abbreviated?_of_mem_domainAbbreviations h]
  simp [hdomain]

/-! ### The text form -/

/-- **The text form of identifiers.**  Every identifier is read back from the text that is written
for it; a text is read as an identifier exactly if it spells it; the abbreviations that need a
domain are refused for that; and every other text is malformed. -/
theorem parse_grammar :
    (∀ s : Sid, parse s.render = .ok s)
    ∧ (∀ (text : List Char) (s : Sid), parse text = .ok s ↔ Spelling text s)
    ∧ (∀ token ∈ domainAbbreviations,
        parse token.toList = .error (.unsupportedForm .domainAbbreviation token))
    ∧ (∀ text : List Char, (∀ s, ¬Spelling text s) →
        (∀ token ∈ domainAbbreviations, token.toList ≠ text) →
        ∃ fault offset, parse text = .error (.identifier fault offset)) :=
  ⟨parse_render, fun _ _ => parse_eq_ok_iff, fun _ => parse_domainAbbreviation,
    fun _ => exists_fault_of_parse⟩

/-- A great authority in its written form, a lower-case lead with leading zeros, the domain
administrators, and a sign. -/
theorem parse_grammar_samples :
    let great : Sid := { authority := 0x123456789ABC, subAuthorities := [7] }
    let system : Sid := { authority := 5, subAuthorities := [18] }
    parse "S-1-0x123456789ABC-7".toList = .ok great
      ∧ Spelling "s-1-0X05-0018".toList system
      ∧ parse "DA".toList = .error (.unsupportedForm .domainAbbreviation "DA")
      ∧ (∀ s, ¬Spelling "S-1-5-+18".toList s)
      ∧ ∃ fault offset, parse "S-1-5-+18".toList = .error (.identifier fault offset) := by
  intro great system
  obtain ⟨hwritten, hread, hdomain, hmalformed⟩ := parse_grammar
  have hgreat : great.render = "S-1-0x123456789ABC-7".toList := by decide +kernel
  have hsystem : parse "s-1-0X05-0018".toList = .ok system := by decide +kernel
  have hrefused : ∀ s, ¬Spelling "S-1-5-+18".toList s := by
    intro s hs
    have hparse := (hread _ s).mpr hs
    have herror : parse "S-1-5-+18".toList = .error (.identifier .subAuthorityNotNumber 6) := by
      decide +kernel
    rw [herror] at hparse
    cases hparse
  exact ⟨hgreat ▸ hwritten great, (hread _ system).mp hsystem, hdomain "DA" (by decide +kernel),
    hrefused, hmalformed _ hrefused (by decide +kernel)⟩

end Sid

end SecurityDescriptor
