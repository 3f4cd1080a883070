/-
**Where the text of an identifier goes wrong.**

A text is cut at its hyphens, and its components are looked at one after another.  What may stand in a
component depends on its number alone: first the lead, then the revision, then the authority, then at
most as many sub-authorities as there may be.  The beginning of a long form is a run of components
that some other components complete, and this is so exactly if each of them fits where it stands.  A
text that is refused is refused at the first component that does not fit, at the very byte at which
this component begins; or all its components fit and there are too few of them, and it is refused at
its end.

Main definitions:

* `Sid.IsLong`, `Sid.IsBeginning` — the components of a long form, and the first of them;
* `Sid.Fits`, `Sid.FitFrom` — what may stand in the components;
* `Sid.Misfit` — what is wrong with a component that does not fit;
* `Sid.Flaw` — **the fault of a text and the position that it is reported at**.

Main results:

* `Sid.isBeginning_iff` — components begin a long form exactly if each of them fits;
* `Sid.parseComponents_eq_error` — the reader stops at the first component that does not fit;
* `Sid.parse_flaw` — **a text that is refused is refused for its flaw and where the flaw is**.
-/

import SecurityDescriptor.Proofs.Sid.Grammar

set_option relaxedAutoImplicit false
set_option autoImplicit false

namespace SecurityDescriptor

namespace Sid

/-! ### Beginnings -/

/-- The components spell an identifier in the long form. -/
def IsLong (components : List (List Char)) : Prop :=
  ∃ lead authority subs, ∃ s : Sid, (lead = 'S' ∨ lead = 's') ∧
    components = [lead] :: ['1'] :: authority :: subs ∧
    AuthoritySpelling authority s.authority ∧ SubAuthoritySpellings subs s.subAuthorities

/-- The components are the first of those of some long form. -/
def IsBeginning (components : List (List Char)) : Prop := ∃ more, IsLong (components ++ more)

/-- What may stand in the component with the given number. -/
def Fits : Nat → List Char → Prop
  | 0, component => component = ['S'] ∨ component = ['s']
  | 1, component => component = ['1']
  | 2, component => ∃ n ≤ maxAuthority, AuthoritySpelling component n
  | index + 3, component => index < maxCount ∧ ∃ sub : UInt32, Numeral.Spells 10 component sub.toNat

/-- Each of the components fits where it stands, the first of them as the one with number `index`. -/
def FitFrom : Nat → List (List Char) → Prop
  | _, [] => True
  | index, component :: components => Fits index component ∧ FitFrom (index + 1) components

theorem fitFrom_append {index : Nat} {front back : List (List Char)} :
    FitFrom index (front ++ back) ↔ FitFrom index front ∧ FitFrom (index + front.length) back := by
  induction front generalizing index with
  | nil => simp [FitFrom]
  | cons component front ih =>
      simp only [List.cons_append, FitFrom, ih, List.length_cons, and_assoc]
      rw [show index + 1 + front.length = index + (front.length + 1) by omega]

/-- Sub-authorities fit as long as each is a numeral and there is room for all of them. -/
theorem fitFrom_subAuthorities_iff {count : Nat} (hcount : count ≤ maxCount)
    {components : List (List Char)} :
    FitFrom (count + 3) components
      ↔ count + components.length ≤ maxCount ∧ ∃ subs, SubAuthoritySpellings components subs := by
  induction components generalizing count with
  | nil => simp [FitFrom, hcount]
  | cons component components ih =>
      rw [FitFrom, Fits, List.length_cons]
      constructor
      · rintro ⟨⟨hroom, sub, hsub⟩, hrest⟩
        rw [show count + 3 + 1 = count + 1 + 3 by omega] at hrest
        obtain ⟨hlength, subs, hsubs⟩ := (ih (by omega)).mp hrest
        exact ⟨by omega, sub :: subs, .cons hsub hsubs⟩
      · rintro ⟨hlength, _, hspell⟩
        obtain ⟨sub, subs, hsub, hsubs, rfl⟩ := List.forall₂_cons_left_iff.mp hspell
        refine ⟨⟨by omega, sub, hsub⟩, ?_⟩
        rw [show count + 3 + 1 = count + 1 + 3 by omega]
        exact (ih (by omega)).mpr ⟨by omega, subs, hsubs⟩

/-- A long form is a run of fitting components, of which there are at least three. -/
theorem isLong_iff {components : List (List Char)} :
    IsLong components ↔ FitFrom 0 components ∧ 3 ≤ components.length := by
  constructor
  · rintro ⟨lead, authority, subs, s, hlead, rfl, hauthority, hsubs⟩
    have hcount : 0 + subs.length ≤ maxCount := by
      rw [Nat.zero_add, hsubs.length_eq]
      exact s.count_le
    refine ⟨⟨?_, rfl, ⟨s.authority, s.authority_le, hauthority⟩, ?_⟩, by simp⟩
    · rcases hlead with rfl | rfl
      · exact .inl rfl
      · exact .inr rfl
    · exact (fitFrom_subAuthorities_iff (Nat.zero_le _)).mpr ⟨hcount, _, hsubs⟩
  · rintro ⟨hfit, hlength⟩
    match components, hlength with
    | _ :: _ :: authority :: components, _ =>
      obtain ⟨hlead, rfl, ⟨n, hn, hauthority⟩, hrest⟩ := hfit
      obtain ⟨hcount, subs, hsubs⟩ := (fitFrom_subAuthorities_iff (Nat.zero_le _)).mp hrest
      rw [Nat.zero_add, hsubs.length_eq] at hcount
      rcases hlead with rfl | rfl
      · exact ⟨'S', authority, components, ⟨n, subs, hn, hcount⟩, .inl rfl, rfl, hauthority, hsubs⟩
      · exact ⟨'s', authority, components, ⟨n, subs, hn, hcount⟩, .inr rfl, rfl, hauthority, hsubs⟩

/-- **Components begin a long form exactly if each of them fits.** -/
theorem isBeginning_iff {components : List (List Char)} :
    IsBeginning components ↔ FitFrom 0 components := by
  constructor
  · rintro ⟨more, hlong⟩
    exact (fitFrom_append.mp (isLong_iff.mp hlong).1).1
  · intro hfit
    -- What is missing of the first three components can be added, and nothing more is needed.
    have hzero : Fits 2 ['0'] :=
      ⟨0, Nat.zero_le _, .decimal ⟨by decide, List.forall_mem_singleton.mpr rfl, rfl⟩⟩
    have hmore : ∃ more, FitFrom components.length more ∧ 3 ≤ components.length + more.length := by
      match components with
      | [] => exact ⟨[['S'], ['1'], ['0']], ⟨.inl rfl, rfl, hzero, trivial⟩, by decide⟩
      | [_] => exact ⟨[['1'], ['0']], ⟨rfl, hzero, trivial⟩, by simp⟩
      | [_, _] => exact ⟨[['0']], ⟨hzero, trivial⟩, by simp⟩
      | _ :: _ :: _ :: _ => exact ⟨[], trivial, by simp⟩
    obtain ⟨more, hfits, hlength⟩ := hmore
    refine ⟨more, isLong_iff.mpr ⟨fitFrom_append.mpr ⟨hfit, by rwa [Nat.zero_add]⟩, ?_⟩⟩
    rwa [List.length_append]

/-! ### Components that do not fit -/

/-- **What is wrong with a component** that does not fit as the one with the given number.  A
component that is no sub-authority is reported as such wherever it stands, and one too many only if it
is one. -/
inductive Misfit : Nat → List Char → IdentifierFault → Prop
  | lead {component : List Char} (h : component ≠ ['S'] ∧ component ≠ ['s']) :
      Misfit 0 component .missingLead
  | revision {component : List Char} (h : component ≠ ['1']) : Misfit 1 component .revision
  | authority {component : List Char} (h : ∀ n < UInt64.size, ¬AuthoritySpelling component n) :
      Misfit 2 component .authorityNotNumber
  | greatAuthority {component : List Char} {n : Nat} (h : AuthoritySpelling component n)
      (hgreat : maxAuthority < n) (hsize : n < UInt64.size) : Misfit 2 component .authorityTooLarge
  | subAuthority {index : Nat} {component : List Char}
      (h : ∀ sub : UInt32, ¬Numeral.Spells 10 component sub.toNat) :
      Misfit (index + 3) component .subAuthorityNotNumber
  | oneTooMany {index : Nat} {component : List Char} {sub : UInt32}
      (h : Numeral.Spells 10 component sub.toNat) (hindex : maxCount ≤ index) :
      Misfit (index + 3) component .tooManySubAuthorities

theorem AuthoritySpelling.unique {component : List Char} {m n : Nat}
    (hm : AuthoritySpelling component m) (hn : AuthoritySpelling component n) : m = n :=
  (authoritySpelling_iff.mp hm).unique (authoritySpelling_iff.mp hn)

theorem Misfit.not_fits {index : Nat} {component : List Char} {fault : IdentifierFault}
    (h : Misfit index component fault) : ¬Fits index component := by
  cases h with
  | lead h => exact fun hfits => hfits.elim h.1 h.2
  | revision h => exact h
  | authority h =>
      rintro ⟨n, hn, hspelling⟩
      exact h n (Nat.lt_of_le_of_lt hn (by decide)) hspelling
  | greatAuthority h hgreat =>
      rintro ⟨n, hn, hspelling⟩
      rw [h.unique hspelling] at hgreat
      omega
  | subAuthority h => exact fun ⟨_, sub, hsub⟩ => h sub hsub
  | oneTooMany _ hindex =>
      rintro ⟨hroom, -⟩
      omega

/-- The first of the components that does not fit, the first of all standing as the one with number
`index`: its fault, and the number of bytes before it. -/
inductive FirstMisfit : Nat → List (List Char) → IdentifierFault → Nat → Prop
  | here {index : Nat} {component : List Char} {components : List (List Char)}
      {fault : IdentifierFault} (h : Misfit index component fault) :
      FirstMisfit index (component :: components) fault 0
  | later {index : Nat} {component : List Char} {components : List (List Char)}
      {fault : IdentifierFault} {offset : Nat} (hfits : Fits index component)
      (h : FirstMisfit (index + 1) components fault offset) :
      FirstMisfit index (component :: components) fault (Text.width component + 1 + offset)

/-- The components before the first that does not fit, and those behind it. -/
theorem FirstMisfit.split {index offset : Nat} {components : List (List Char)}
    {fault : IdentifierFault} (h : FirstMisfit index components fault offset) :
    ∃ front component back, components = front ++ component :: back ∧ FitFrom index front ∧
      Misfit (index + front.length) component fault ∧
      offset = Text.width (front.flatMap (· ++ ['-'])) := by
  induction h with
  | here h => exact ⟨[], _, _, rfl, trivial, h, rfl⟩
  | @later index first _ _ _ hfits _ ih =>
      obtain ⟨front, component, back, rfl, hfront, hmisfit, rfl⟩ := ih
      refine ⟨first :: front, component, back, rfl, ⟨hfits, hfront⟩, ?_, ?_⟩
      · rwa [List.length_cons, Nat.add_comm front.length, ← Nat.add_assoc]
      · rw [List.flatMap_cons, Text.width_append, Text.width_append]
        rfl

/-! ### The reader -/

/-- An authority that is refused does not fit. -/
theorem parseAuthority_eq_error {start : Nat} {component : List Char} {e : Error}
    (h : parseAuthority start component = .error e) :
    ∃ fault, Misfit 2 component fault ∧ e = .identifier fault start := by
  have hbase : 0 < (authorityDigits component).1 := (isWord_of_authorityDigits rfl).1
  rw [parseAuthority] at h
  dsimp only at h
  split at h
  · rename_i hread
    cases h
    refine ⟨_, .authority fun n hn hspelling => ?_, rfl⟩
    have hle : n ≤ UInt64.size - 1 := by omega
    rw [(Numeral.read?_eq_some_iff_spells hbase).mpr ⟨authoritySpelling_iff.mp hspelling, hle⟩]
      at hread
    cases hread
  · rename_i n hread
    obtain ⟨hspells, hsize⟩ := (Numeral.read?_eq_some_iff_spells hbase).mp hread
    have hpos : 0 < UInt64.size := by decide
    split at h
    · cases h
    · rename_i hgreat
      cases h
      exact ⟨_, .greatAuthority (authoritySpelling_iff.mpr hspells) (by omega) (by omega), rfl⟩

/-- Sub-authorities are refused at the first that does not fit. -/
theorem parseSubAuthorities_eq_error {count room start : Nat} {components : List (List Char)}
    {e : Error} (hroom : count + room = maxCount)
    (h : parseSubAuthorities room start components = .error e) :
    ∃ fault offset, FirstMisfit (count + 3) components fault offset ∧
      e = .identifier fault (start + offset) := by
  induction components generalizing count room start with
  | nil => simp [parseSubAuthorities] at h
  | cons component components ih =>
      have hword : ∀ sub : UInt32, (Numeral.read? 10 (UInt32.size - 1) component).map UInt32.ofNat
          = some sub ↔ Numeral.Spells 10 component sub.toNat :=
        fun _ => Numeral.map_read?_eq_some_iff (by decide)
      rw [parseSubAuthorities.eq_def] at h
      dsimp only at h
      split at h
      · rename_i hread
        cases h
        refine ⟨_, 0, .here (.subAuthority fun sub hsub => ?_), rfl⟩
        have hvalue := (hword sub).mpr hsub
        rw [hread] at hvalue
        cases hvalue
      · rename_i value hread
        have hsub : Numeral.Spells 10 component (UInt32.ofNat value).toNat :=
          (hword _).mp (by rw [hread, Option.map_some])
        split at h
        · cases h
          exact ⟨_, 0, .here (.oneTooMany hsub (by omega)), rfl⟩
        · rename_i room
          rcases Outcome.bind_eq_error_iff.mp h with h | ⟨_, -, h⟩
          · have hroom : count + 1 + room = maxCount := by omega
            obtain ⟨fault, offset, hfirst, rfl⟩ := ih hroom h
            rw [show count + 1 + 3 = count + 3 + 1 by omega] at hfirst
            refine ⟨fault, _, .later ⟨by omega, _, hsub⟩ hfirst, ?_⟩
            congr 1
            omega
          · cases h

/-- **The reader stops at the first component that does not fit**, or at the end of the text if all
of them fit and there are too few. -/
theorem parseComponents_eq_error {width : Nat} {components : List (List Char)} {e : Error}
    (hne : components ≠ []) (h : parseComponents width components = .error e) :
    (∃ fault offset, FirstMisfit 0 components fault offset ∧ e = .identifier fault offset)
    ∨ FitFrom 0 components ∧ components.length < 3 ∧ e = .identifier .missingComponent width := by
  have hwidth : ∀ {lead : List Char}, lead = ['S'] ∨ lead = ['s'] → Text.width lead = 1 := by
    rintro lead (rfl | rfl) <;> rfl
  rw [parseComponents.eq_def] at h
  split at h
  · rename_i lead components
    split at h
    · rename_i hlead
      split at h
      · cases h
        exact .inr ⟨⟨hlead, trivial⟩, by simp, rfl⟩
      · rename_i revision components
        split at h
        · rename_i hrevision
          cases h
          refine .inl ⟨_, _, .later hlead (.here (.revision hrevision)), ?_⟩
          rw [hwidth hlead]
        · rename_i hrevision
          obtain rfl := Decidable.of_not_not hrevision
          split at h
          · cases h
            exact .inr ⟨⟨hlead, rfl, trivial⟩, by simp, rfl⟩
          · rename_i authority components
            rcases Outcome.bind_eq_error_iff.mp h with h | ⟨value, hvalue, h⟩
            · obtain ⟨fault, hmisfit, rfl⟩ := parseAuthority_eq_error h
              refine .inl ⟨fault, _, .later hlead (.later rfl (.here hmisfit)), ?_⟩
              rw [hwidth hlead]
              rfl
            · obtain ⟨hauthority, hle⟩ := parseAuthority_eq_ok_iff.mp hvalue
              rcases Outcome.bind_eq_error_iff.mp h with h | ⟨values, hvalues, h⟩
              · obtain ⟨fault, offset, hfirst, rfl⟩ :=
                  parseSubAuthorities_eq_error (Nat.zero_add maxCount) h
                have hfits : Fits 2 authority := ⟨value, hle, hauthority⟩
                refine .inl ⟨fault, _, .later hlead (.later rfl (.later hfits hfirst)), ?_⟩
                rw [hwidth hlead, show Text.width ['1'] = 1 from rfl]
                congr 1
                omega
              · obtain ⟨hsubs, hcount⟩ := parseSubAuthorities_eq_ok_iff.mp hvalues
                rw [make, dif_pos hle, dif_pos (hsubs.length_eq ▸ hcount)] at h
                cases h
    · rename_i hlead
      cases h
      exact .inl ⟨_, _, .here (.lead (not_or.mp hlead)), rfl⟩
  · exact absurd rfl hne

/-! ### The flaw of a text -/

/-- **The fault of a text and the position that it is reported at**: where the first component begins
that the components up to and with it do not begin a long form, or the end of a text that ends before
its authority. -/
inductive Flaw (text : List Char) : IdentifierFault → Nat → Prop
  | component {front : List (List Char)} {component : List Char} {back : List (List Char)}
      {fault : IdentifierFault} (hsplit : text.splitOn '-' = front ++ component :: back)
      (htext : text = front.flatMap (· ++ ['-']) ++ component ++ back.flatMap ('-' :: ·))
      (hfront : IsBeginning front) (hstop : ¬IsBeginning (front ++ [component]))
      (hmisfit : Misfit front.length component fault) :
      Flaw text fault (Text.width (front.flatMap (· ++ ['-'])))
  | ending (hbeginning : IsBeginning (text.splitOn '-')) (hfew : (text.splitOn '-').length < 3) :
      Flaw text .missingComponent (Text.width text)

/-- A text is its components before one of them, that one, and those behind it, with hyphens
between them. -/
theorem eq_of_splitOn_eq_append {text component : List Char} {front back : List (List Char)}
    (h : text.splitOn '-' = front ++ component :: back) :
    text = front.flatMap (· ++ ['-']) ++ component ++ back.flatMap ('-' :: ·) := by
  have hjoin : ['-'].intercalate (text.splitOn '-') = text := List.intercalate_splitOn '-'
  rw [← hjoin, h]
  clear h hjoin
  induction front with
  | nil => simp [Text.intercalate_cons]
  | cons first front ih =>
      rw [List.cons_append, List.intercalate_cons_of_ne_nil (by simp), ih, List.flatMap_cons]
      simp only [List.append_assoc]

/-- What is refused needs a domain, or it is refused as a long form. -/
theorem parse_eq_error {text : List Char} {e : Error} (h : parse text = .error e) :
    (∃ token ∈ domainAbbreviations, token.toList = text ∧
      e = .unsupportedForm .domainAbbreviation token)
    ∨ parseComponents (Text.width text) (text.splitOn '-') = .error e := by
  rw [parse] at h
  split at h
  · rename_i row hrow
    obtain ⟨s, hs⟩ := exists_of_mem_abbreviations (abbreviated?_eq_some_iff.mp hrow).1
    rw [make_eq_ok_iff.mpr hs] at h
    cases h
  · split at h
    · rename_i hdomain
      obtain ⟨token, htoken, rfl⟩ := isDomainAbbreviation_iff.mp hdomain
      rw [String.ofList_toList] at h
      cases h
      exact .inl ⟨token, htoken, rfl, rfl⟩
    · exact .inr h

/-- **A text that is refused is refused for its flaw and where the flaw is**, unless it is an
abbreviation that needs a domain. -/
theorem parse_flaw {text : List Char} {e : Error} (h : parse text = .error e)
    (hdomain : ∀ token ∈ domainAbbreviations, token.toList ≠ text) :
    ∃ fault offset, e = .identifier fault offset ∧ Flaw text fault offset := by
  have hread : parseComponents (Text.width text) (text.splitOn '-') = .error e := by
    rcases parse_eq_error h with ⟨token, htoken, htext, -⟩ | hread
    · exact absurd htext (hdomain token htoken)
    · exact hread
  rcases parseComponents_eq_error (List.splitOn_ne_nil _ _) hread with
    ⟨fault, offset, hfirst, rfl⟩ | ⟨hfit, hfew, rfl⟩
  · obtain ⟨front, component, back, hsplit, hfront, hmisfit, rfl⟩ := hfirst.split
    rw [Nat.zero_add] at hmisfit
    refine ⟨fault, _, rfl, .component hsplit (eq_of_splitOn_eq_append hsplit)
      (isBeginning_iff.mpr hfront) (fun hstop => ?_) hmisfit⟩
    obtain ⟨-, hfits, -⟩ := fitFrom_append.mp (isBeginning_iff.mp hstop)
    rw [Nat.zero_add] at hfits
    exact hmisfit.not_fits hfits
  · exact ⟨_, _, rfl, .ending (isBeginning_iff.mpr hfit) hfew⟩

/-- A character of two bytes where a sub-authority should begin. -/
theorem parse_flaw_subAuthority :
    parse "S-1-5-21-é".toList = .error (.identifier .subAuthorityNotNumber 9)
      ∧ Flaw "S-1-5-21-é".toList .subAuthorityNotNumber 9 := by
  have herror : parse "S-1-5-21-é".toList = .error (.identifier .subAuthorityNotNumber 9) := by
    decide +kernel
  obtain ⟨fault, offset, heq, hflaw⟩ := parse_flaw herror (by decide +kernel)
  cases heq
  exact ⟨herror, hflaw⟩

end Sid

end SecurityDescriptor
