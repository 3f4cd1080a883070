/-
**The text of an identifier is read back.**

The text of an identifier is a row of components with hyphens between them.  No component contains
a hyphen, so the reader cuts the text into the components that the writer joined, and each of them
is a numeral that is read for its value.  Whatever the reader accepts, abbreviations included, is
plain, so an identifier can stand inside an entry or a descriptor without being mistaken for its
punctuation.

Main results:

* `Sid.splitOn_render` — the text of an identifier is cut into its components;
* `Sid.parse_render` — **an identifier is read back from its text**;
* `Sid.isPlain_render`, `Sid.isPlain_of_parse` — what is written and what is accepted is plain.
-/

import SecurityDescriptor.Proofs.Outcome
import SecurityDescriptor.Proofs.Text.Plain
import SecurityDescriptor.Sid.Text

set_option relaxedAutoImplicit false
set_option autoImplicit false

namespace SecurityDescriptor

namespace Sid

/-! ### Abbreviations -/

theorem isWord_of_mem_abbreviations {row : Abbreviation} (h : row ∈ abbreviations) :
    Text.IsWord row.token.toList := by
  have hall : ∀ row ∈ abbreviations, Text.IsWord row.token.toList := by
    decide +kernel
  exact hall row h

theorem isWord_of_mem_domainAbbreviations {token : String} (h : token ∈ domainAbbreviations) :
    Text.IsWord token.toList := by
  have hall : ∀ token ∈ domainAbbreviations, Text.IsWord token.toList := by
    decide +kernel
  exact hall token h

/-- A text with a hyphen is not an abbreviation. -/
theorem abbreviated?_eq_none {text : List Char} (h : '-' ∈ text) : abbreviated? text = none := by
  refine List.find?_eq_none.2 ?_
  intro row hrow heq
  have hword := isWord_of_mem_abbreviations hrow
  rw [eq_of_beq heq] at hword
  exact hword.not_mem (by decide) h

theorem isDomainAbbreviation_eq_false {text : List Char} (h : '-' ∈ text) :
    isDomainAbbreviation text = false := by
  refine List.any_eq_false.2 ?_
  intro token htoken heq
  have hword := isWord_of_mem_domainAbbreviations htoken
  rw [eq_of_beq heq] at hword
  exact hword.not_mem (by decide) h

/-! ### Components of what is written -/

theorem isWord_renderAuthority (authority : Nat) : Text.IsWord (renderAuthority authority) := by
  unfold renderAuthority
  split
  · exact Numeral.isWord_decimal authority
  · intro c hc
    rcases List.mem_cons.1 hc with rfl | hc
    · decide
    · rcases List.mem_cons.1 hc with rfl | hc
      · decide
      · obtain ⟨d, hd, rfl⟩ := List.mem_map.1 hc
        obtain ⟨e, he, rfl⟩ := Numeral.exists_digitChar_of_mem_fixedHex hd
        have hsome : (Numeral.digitValue? 16 (Nat.digitChar e).toUpper).isSome := by
          rw [Numeral.digitValue?_toUpper_digitChar he,
            Numeral.digitValue?_digitChar (Nat.le_refl 16) he]
          rfl
        exact Numeral.isAlphanum_of_digitValue? hsome

/-- Numerals behind hyphens are cut off one by one. -/
theorem splitOn_append_decimals {front : List Char} (hfront : '-' ∉ front) (subs : List UInt32) :
    (front ++ subs.flatMap fun sub => '-' :: Numeral.decimal sub.toNat).splitOn '-'
      = front :: subs.map fun sub => Numeral.decimal sub.toNat := by
  induction subs generalizing front with
  | nil =>
      rw [List.flatMap_nil, List.append_nil, List.splitOn_eq_singleton hfront]
      rfl
  | cons sub subs ih =>
      -- The numeral in front of the next hyphen is the new front, and it has no hyphen either.
      have hsub := (Numeral.isWord_decimal sub.toNat).not_mem (c := '-') (by decide)
      rw [List.flatMap_cons, List.cons_append, List.splitOn_append_cons_self_of_not_mem hfront,
        ih hsub, List.map_cons]

/-- The text of an identifier is cut into its components. -/
theorem splitOn_render (s : Sid) :
    s.render.splitOn '-'
      = ['S'] :: ['1'] :: renderAuthority s.authority ::
          s.subAuthorities.map fun sub => Numeral.decimal sub.toNat := by
  have hauthority := (isWord_renderAuthority s.authority).not_mem (c := '-') (by decide)
  have hlead : '-' ∉ ['S'] := by decide
  have hrevision : '-' ∉ ['1'] := by decide
  calc
    s.render.splitOn '-'
      = (['S'] ++ '-' :: (['1'] ++ '-' :: (renderAuthority s.authority ++
          s.subAuthorities.flatMap fun sub => '-' :: Numeral.decimal sub.toNat))).splitOn '-' := rfl
    _ = _ := by
      rw [List.splitOn_append_cons_self_of_not_mem hlead,
        List.splitOn_append_cons_self_of_not_mem hrevision, splitOn_append_decimals hauthority]

/-! ### Reading what was written -/

/-- Digits of base ten are not taken for the beginning of a hexadecimal number. -/
theorem authorityDigits_decimal (n : Nat) :
    authorityDigits (Numeral.decimal n) = (10, Numeral.decimal n) := by
  have hdigit : ∀ c ∈ Numeral.decimal n, c.isDigit = true :=
    fun c hc => Nat.isDigit_of_mem_toDigits (by decide) (by decide) hc
  unfold authorityDigits
  split
  · rename_i digits heq
    have hx := hdigit 'x' (by rw [heq]; simp)
    exact absurd hx (by decide)
  · rename_i digits heq
    have hx := hdigit 'X' (by rw [heq]; simp)
    exact absurd hx (by decide)
  · rfl

theorem parseAuthority_render {authority : Nat} (h : authority ≤ maxAuthority) (start : Nat) :
    parseAuthority start (renderAuthority authority) = .ok authority := by
  have hbound : authority ≤ UInt64.size - 1 := Nat.le_trans h (by decide)
  unfold renderAuthority
  split
  · rw [parseAuthority, authorityDigits_decimal]
    dsimp only
    rw [Numeral.read?_decimal hbound]
    exact if_pos h
  · have hwidth : authority < Nat.pow 16 12 := Nat.lt_of_le_of_lt h (by decide)
    rw [parseAuthority, authorityDigits]
    dsimp only
    rw [Numeral.read?_fixedHex_toUpper (by decide) hwidth hbound]
    exact if_pos h

theorem parseSubAuthorities_decimals {room : Nat} {subs : List UInt32} (h : subs.length ≤ room)
    (start : Nat) :
    parseSubAuthorities room start (subs.map fun sub => Numeral.decimal sub.toNat) = .ok subs := by
  induction subs generalizing room start with
  | nil => cases room <;> rfl
  | cons sub subs ih =>
      have hlt : sub.toNat ≤ UInt32.size - 1 := Nat.le_sub_one_of_lt sub.toNat_lt
      cases room with
      | zero => simp at h
      | succ room =>
          rw [List.map_cons, parseSubAuthorities, Numeral.read?_decimal hlt]
          dsimp only
          rw [ih (Nat.le_of_succ_le_succ h), Outcome.ok_bind, UInt32.ofNat_toNat]
          rfl

/-- **An identifier is read back from its text.** -/
theorem parse_render (s : Sid) : parse s.render = .ok s := by
  -- No abbreviation has a hyphen, so the text is cut into components.
  have hhyphen : '-' ∈ s.render := List.mem_cons_of_mem _ (List.mem_cons_self ..)
  rw [parse, abbreviated?_eq_none hhyphen]
  dsimp only
  rw [isDomainAbbreviation_eq_false hhyphen, if_neg Bool.false_ne_true, splitOn_render,
    parseComponents, if_pos (.inl rfl), if_neg (fun h => h rfl),
    parseAuthority_render s.authority_le, Outcome.ok_bind,
    parseSubAuthorities_decimals s.count_le, Outcome.ok_bind, make_parts]

/-! ### Plainness -/

theorem isPlain_render (s : Sid) : Text.IsPlain s.render := by
  have hsubs : Text.IsPlain
      (s.subAuthorities.flatMap fun sub => '-' :: Numeral.decimal sub.toNat) := by
    intro c hc
    obtain ⟨sub, -, hsub⟩ := List.mem_flatMap.1 hc
    rcases List.mem_cons.1 hsub with rfl | hsub
    · exact .inr rfl
    · exact .inl (Numeral.isWord_decimal sub.toNat c hsub)
  simp only [render, Text.isPlain_cons, Text.isPlain_append, hsubs,
    (isWord_renderAuthority s.authority).isPlain]
  decide

/-- In front of the digits of an authority there may be two characters that mark their base. -/
theorem isWord_of_authorityDigits {base : Nat} {component digits : List Char}
    (h : authorityDigits component = (base, digits)) :
    0 < base ∧ (Text.IsWord digits → Text.IsWord component) := by
  have hmark : ∀ {x : Char} {tail : List Char}, x.isAlphanum = true → Text.IsWord tail →
      Text.IsWord ('0' :: x :: tail) := by
    intro x tail hx htail c hc
    rcases List.mem_cons.1 hc with rfl | hc
    · decide
    · rcases List.mem_cons.1 hc with rfl | hc
      · exact hx
      · exact htail c hc
  unfold authorityDigits at h
  split at h
  · cases h
    exact ⟨by decide, hmark (by decide)⟩
  · cases h
    exact ⟨by decide, hmark (by decide)⟩
  · cases h
    exact ⟨by decide, id⟩

theorem isWord_of_parseAuthority {start authority : Nat} {component : List Char}
    (h : parseAuthority start component = .ok authority) : Text.IsWord component := by
  unfold parseAuthority at h
  cases hsplit : authorityDigits component with
  | mk base digits =>
      obtain ⟨hbase, hword⟩ := isWord_of_authorityDigits hsplit
      rw [hsplit] at h
      dsimp only at h
      cases hread : Numeral.read? base (UInt64.size - 1) digits with
      | none =>
          rw [hread] at h
          cases h
      | some value => exact hword (Numeral.isWord_of_read? hbase hread)

theorem isWord_of_parseSubAuthorities {room start : Nat} {components : List (List Char)}
    {subs : List UInt32} (h : parseSubAuthorities room start components = .ok subs) :
    ∀ component ∈ components, Text.IsWord component := by
  induction components generalizing room start subs with
  | nil => exact fun _ h => (List.not_mem_nil h).elim
  | cons component components ih =>
      rw [parseSubAuthorities.eq_def] at h
      dsimp only at h
      cases hread : Numeral.read? 10 (UInt32.size - 1) component with
      | none =>
          rw [hread] at h
          cases h
      | some value =>
          rw [hread] at h
          cases room with
          | zero => cases h
          | succ room =>
              obtain ⟨rest, hrest, -⟩ := Outcome.bind_eq_ok_iff.1 h
              intro c hc
              rcases List.mem_cons.1 hc with rfl | hc
              · exact Numeral.isWord_of_read? (by decide) hread
              · exact ih hrest c hc

theorem isWord_of_parseComponents {width : Nat} {components : List (List Char)} {s : Sid}
    (h : parseComponents width components = .ok s) :
    ∀ component ∈ components, Text.IsWord component := by
  unfold parseComponents at h
  split at h
  · rename_i lead components₁
    split at h
    · rename_i hlead
      split at h
      · cases h
      · rename_i rev components₂
        split at h
        · cases h
        · rename_i hrev
          split at h
          · cases h
          · rename_i authority components₃
            obtain ⟨value, hvalue, h₁⟩ := Outcome.bind_eq_ok_iff.1 h
            obtain ⟨values, hvalues, -⟩ := Outcome.bind_eq_ok_iff.1 h₁
            intro c hc
            rcases List.mem_cons.1 hc with rfl | hc
            · rcases hlead with rfl | rfl <;> decide
            rcases List.mem_cons.1 hc with rfl | hc
            · rw [Decidable.of_not_not hrev]
              decide
            rcases List.mem_cons.1 hc with rfl | hc
            · exact isWord_of_parseAuthority hvalue
            · exact isWord_of_parseSubAuthorities hvalues c hc
    · cases h
  · cases h

/-- **What is accepted as an identifier is plain.** -/
theorem isPlain_of_parse {text : List Char} {s : Sid} (h : parse text = .ok s) :
    Text.IsPlain text := by
  unfold parse at h
  split at h
  · rename_i row hrow
    have hfind : abbreviations.find? (fun row => row.token.toList == text) = some row := hrow
    have htoken := List.find?_some hfind
    rw [beq_iff_eq] at htoken
    rw [← htoken]
    exact (isWord_of_mem_abbreviations (List.mem_of_find?_eq_some hfind)).isPlain
  · split at h
    · cases h
    · exact Text.isPlain_of_splitOn (isWord_of_parseComponents h)

end Sid

end SecurityDescriptor
