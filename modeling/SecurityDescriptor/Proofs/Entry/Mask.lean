/-
**The mask field of an entry.**

Four notations share the field: nothing at all, a number behind `0x`, a run of right tokens, and a
bare number.  The first two are recognised by how they begin.  A run of tokens and a bare number may
be the same text, and then it is the run.  The reader of numbers lets a plus sign stand in front of
the digits, which no notation provides for and which identifiers and GUIDs refuse; apart from that
it reads the four notations and nothing else.

Main definitions:

* `Mask.IsUnion` — a mask has exactly the bits of some masks;
* `Mask.Documented` — the texts of a mask in the four notations;
* `Mask.Signed` — the texts that are read besides, with their plus sign.

Main results:

* `Mask.isUnion_iff` — the bits of a run are collected one by one;
* `Mask.parse_eq_ok_iff` — **a mask is read exactly from its texts, signed ones included**;
* `Entry.parse_joinFields_iff` — **of an entry that is accepted, only the mask changes with its
  field**;
* `Entry.parse_maskField` — the mask field as a whole, and `Entry.not_documented_of_parse` for the
  sign.
-/

import SecurityDescriptor.Proofs.Entry.Text

set_option relaxedAutoImplicit false
set_option autoImplicit false

namespace SecurityDescriptor

namespace Mask

/-! ### The notations -/

/-- The mask has exactly the bits of the values. -/
def IsUnion (mask : Mask) (values : List Mask) : Prop :=
  ∀ i, mask.toBitVec.getLsbD i = values.any fun value => value.toBitVec.getLsbD i

/-- **The texts of a mask**: nothing, a number behind a mark, a run of tokens, and, unless it is a
run of tokens, a number without a mark. -/
inductive Documented : List Char → Mask → Prop
  | nothing : Documented [] 0
  | marked {x : Char} {digits : List Char} {mask : Mask} (hx : x = 'x' ∨ x = 'X')
      (h : Numeral.Spells 16 digits mask.toNat) : Documented ('0' :: x :: digits) mask
  | rights {text : List Char} {values : List Mask} {mask : Mask} (hne : text ≠ [])
      (hrun : Token.Run Mask.rights text values) (h : mask.IsUnion values) : Documented text mask
  | bare {text : List Char} {mask : Mask} (hrun : ∀ values, ¬Token.Run Mask.rights text values)
      (h : Numeral.Spells 16 text mask.toNat) : Documented text mask

/-- Numbers with a plus sign in front of their digits. -/
inductive Signed : List Char → Mask → Prop
  | marked {x : Char} {digits : List Char} {mask : Mask} (hx : x = 'x' ∨ x = 'X')
      (h : Numeral.Spells 16 digits mask.toNat) : Signed ('0' :: x :: '+' :: digits) mask
  | bare {digits : List Char} {mask : Mask} (h : Numeral.Spells 16 digits mask.toNat) :
      Signed ('+' :: digits) mask

theorem Signed.plus_mem {text : List Char} {mask : Mask} (h : Signed text mask) : '+' ∈ text := by
  cases h <;> simp

/-! ### Bits of a run -/

theorem getLsbD_foldl_or (values : List Mask) (mask : Mask) (i : Nat) :
    (values.foldl (· ||| ·) mask).toBitVec.getLsbD i
      = (mask.toBitVec.getLsbD i || values.any fun value => value.toBitVec.getLsbD i) := by
  induction values generalizing mask with
  | nil => simp
  | cons value values ih => simp [ih, Bool.or_assoc]

/-- The bits of a run are collected one by one. -/
theorem isUnion_iff {mask : Mask} {values : List Mask} :
    mask.IsUnion values ↔ mask = union values := by
  have hunion : (union values).IsUnion values := by
    intro i
    simp [union, getLsbD_foldl_or]
  constructor
  · intro h
    apply UInt32.toBitVec_inj.mp
    apply BitVec.eq_of_getLsbD_eq
    intro i _
    rw [h, hunion]
  · rintro rfl
    exact hunion

/-! ### Tokens and numbers -/

theorem separable_rights : Token.Separable rights := by decide +kernel

/-- Right tokens are made of capital letters. -/
theorem isUpper_of_run {text : List Char} {values : List Mask} (h : Token.Run rights text values) :
    ∀ c ∈ text, c.isUpper = true := by
  have hall : ∀ row ∈ rights, row.1.toList.all Char.isUpper = true := by decide +kernel
  exact h.forall_char fun row hrow => List.all_eq_true.mp (hall row hrow)

theorem not_spells_plus {digits : List Char} {n : Nat} : ¬Numeral.Spells 16 ('+' :: digits) n := by
  rintro ⟨-, hnumeral, -⟩
  exact absurd (hnumeral '+' (List.mem_cons_self ..)) (by decide)

/-- A hexadecimal number is read with or without a plus sign. -/
theorem parseHex?_eq_some_iff {text : List Char} {mask : Mask} :
    parseHex? text = some mask
      ↔ Numeral.Spells 16 text mask.toNat
        ∨ ∃ digits, text = '+' :: digits ∧ Numeral.Spells 16 digits mask.toNat := by
  unfold parseHex?
  split
  · rename_i digits
    rw [Numeral.map_read?_eq_some_iff (by decide)]
    simp [not_spells_plus]
  · rename_i hplus
    have hnone : ¬∃ digits, text = '+' :: digits ∧ Numeral.Spells 16 digits mask.toNat := by
      rintro ⟨digits, htext, -⟩
      exact hplus digits htext
    rw [Numeral.map_read?_eq_some_iff (by decide), or_iff_left hnone]

theorem hexDigits?_eq_some_iff {text digits : List Char} :
    hexDigits? text = some digits ↔ ∃ x, (x = 'x' ∨ x = 'X') ∧ text = '0' :: x :: digits := by
  constructor
  · intro h
    unfold hexDigits? at h
    split at h
    · cases h
      exact ⟨'x', .inl rfl, rfl⟩
    · cases h
      exact ⟨'X', .inr rfl, rfl⟩
    · cases h
  · rintro ⟨x, rfl | rfl, rfl⟩ <;> rfl

/-- No notation provides for a sign. -/
theorem Documented.isWord {text : List Char} {mask : Mask} (h : Documented text mask) :
    Text.IsWord text := by
  intro c hc
  cases h with
  | nothing => exact absurd hc List.not_mem_nil
  | @marked x digits _ hx h =>
      rcases List.mem_cons.mp hc with rfl | hc
      · decide
      · rcases List.mem_cons.mp hc with rfl | hc
        · rcases hx with rfl | rfl <;> decide
        · exact Numeral.isWord_of_isNumeral h.2.1 c hc
  | rights _ hrun =>
      have hletters : c.isAlphanum = (c.isUpper || c.isLower || c.isDigit) := rfl
      rw [hletters, isUpper_of_run hrun c hc]
      rfl
  | bare _ h => exact Numeral.isWord_of_isNumeral h.2.1 c hc

/-! ### The four cases of the reader -/

theorem spelled_nil_iff {mask : Mask} : Documented [] mask ∨ Signed [] mask ↔ mask = 0 := by
  constructor
  · rintro (h | h)
    · cases h with
      | nothing => rfl
      | rights hne => exact absurd rfl hne
      | bare _ h => exact absurd rfl h.1
    · cases h
  · rintro rfl
    exact .inl .nothing

theorem spelled_marked_iff {x : Char} (hx : x = 'x' ∨ x = 'X') {digits : List Char} {mask : Mask} :
    Documented ('0' :: x :: digits) mask ∨ Signed ('0' :: x :: digits) mask
      ↔ parseHex? digits = some mask := by
  rw [parseHex?_eq_some_iff]
  constructor
  · rintro (h | h)
    · cases h with
      | marked _ h => exact .inl h
      | rights _ hrun => exact absurd (isUpper_of_run hrun '0' (by simp)) (by decide)
      | bare _ h =>
          have hdigit := h.2.1 x (by simp)
          rcases hx with rfl | rfl <;> exact absurd hdigit (by decide)
    · cases h with
      | marked _ h => exact .inr ⟨_, rfl, h⟩
  · rintro (h | ⟨digits, rfl, h⟩)
    · exact .inl (.marked hx h)
    · exact .inr (.marked hx h)

theorem spelled_run_iff {text : List Char} {values : List Mask} {mask : Mask} (hne : text ≠ [])
    (hrun : Token.Run rights text values) :
    Documented text mask ∨ Signed text mask ↔ mask = union values := by
  rw [← isUnion_iff]
  constructor
  · rintro (h | h)
    · cases h with
      | nothing => exact absurd rfl hne
      | marked => exact absurd (isUpper_of_run hrun '0' (by simp)) (by decide)
      | rights _ hrun' h => exact hrun.values_unique separable_rights hrun' ▸ h
      | bare hnone => exact absurd hrun (hnone values)
    · exact absurd (isUpper_of_run hrun '+' h.plus_mem) (by decide)
  · exact fun h => .inl (.rights hne hrun h)

theorem spelled_bare_iff {text : List Char} {mask : Mask} (hmark : hexDigits? text = none)
    (hne : text ≠ []) (hrun : ∀ values, ¬Token.Run rights text values) :
    Documented text mask ∨ Signed text mask ↔ parseHex? text = some mask := by
  have hunmarked : ∀ {x : Char} {digits : List Char}, x = 'x' ∨ x = 'X' →
      text ≠ '0' :: x :: digits := by
    rintro x digits hx rfl
    rw [hexDigits?_eq_some_iff.mpr ⟨x, hx, rfl⟩] at hmark
    cases hmark
  rw [parseHex?_eq_some_iff]
  constructor
  · rintro (h | h)
    · cases h with
      | nothing => exact absurd rfl hne
      | marked hx => exact absurd rfl (hunmarked hx)
      | rights _ hrun' => exact absurd hrun' (hrun _)
      | bare _ h => exact .inl h
    · cases h with
      | marked hx => exact absurd rfl (hunmarked hx)
      | bare h => exact .inr ⟨_, rfl, h⟩
  · rintro (h | ⟨digits, rfl, h⟩)
    · exact .inl (.bare hrun h)
    · exact .inr (.bare h)

/-- **A mask is read exactly from its texts**, signed ones included. -/
theorem parse_eq_ok_iff {text : List Char} {mask : Mask} :
    parse text = .ok mask ↔ Documented text mask ∨ Signed text mask := by
  by_cases hne : text = []
  · subst hne
    rw [spelled_nil_iff, parse, if_pos rfl]
    simp [eq_comm]
  rw [parse, if_neg hne]
  cases hmark : hexDigits? text with
  | some digits =>
      obtain ⟨x, hx, rfl⟩ := hexDigits?_eq_some_iff.mp hmark
      rw [spelled_marked_iff hx]
      dsimp only
      cases parseHex? digits <;> simp
  | none =>
      cases hrun : Token.run? rights text with
      | some values =>
          rw [spelled_run_iff hne ((Token.run?_eq_some_iff separable_rights).mp hrun)]
          simp [eq_comm]
      | none =>
          have hnone : ∀ values, ¬Token.Run rights text values := by
            intro values hvalues
            rw [(Token.run?_eq_some_iff separable_rights).mpr hvalues] at hrun
            cases hrun
          rw [spelled_bare_iff hmark hne hnone]
          cases parseHex? text <;> simp

/-- What is refused is no number, or nothing that a mask can be. -/
theorem parse_eq_error {text : List Char} {e : Error} (h : parse text = .error e) :
    e = .entry .maskNotHex 0 ∨ e = .entry .maskUnrecognised 0 := by
  unfold parse at h
  split at h
  · cases h
  · split at h
    · split at h
      · cases h
      · cases h
        exact .inl rfl
    · split at h
      · cases h
      · split at h
        · cases h
        · cases h
          exact .inr rfl

/-- What is refused is malformed. -/
theorem exists_fault_of_parse {text : List Char} {e : Error} (h : parse text = .error e) :
    ∃ fault, e = .entry fault 0 := by
  rcases parse_eq_error h with rfl | rfl
  · exact ⟨_, rfl⟩
  · exact ⟨_, rfl⟩

end Mask

/-! ### The field of an entry -/

namespace Entry

variable {kind flags mask objectType inheritedType sid : List Char} {entry : Entry}

/-- The six fields of an accepted text are the pieces into which it is cut. -/
theorem not_mem_of_parse_joinFields
    (h : parse (joinFields kind flags mask objectType inheritedType sid) = .ok entry) :
    ';' ∉ kind ∧ ';' ∉ flags ∧ ';' ∉ mask ∧ ';' ∉ objectType ∧ ';' ∉ inheritedType ∧ ';' ∉ sid := by
  have hlength :
      ((joinFields kind flags mask objectType inheritedType sid).splitOn ';').length = 6 := by
    unfold parse at h
    split at h
    · rename_i hfields
      rw [hfields]
      rfl
    · cases h
  -- Each field is cut into one piece at least, so six pieces leave one for each of them.
  have hkind := @Text.length_splitOn_pos ';' kind
  have hflags := @Text.length_splitOn_pos ';' flags
  have hmask := @Text.length_splitOn_pos ';' mask
  have hobject := @Text.length_splitOn_pos ';' objectType
  have hinherited := @Text.length_splitOn_pos ';' inheritedType
  have hsid := @Text.length_splitOn_pos ';' sid
  simp only [joinFields, List.splitOn_append_cons_self, List.length_append] at hlength
  refine ⟨?_, ?_, ?_, ?_, ?_, ?_⟩ <;> exact Text.not_mem_of_length_splitOn (by omega)

/-- The entry that is put together from parts takes any mask. -/
theorem withMask?_bodyOfParts (flags : Flags) (rule : Rule) (objectType inheritedType : Option Guid)
    (mask : Mask) :
    (⟨flags, bodyOfParts rule objectType inheritedType⟩ : Entry).withMask? mask
      = some ⟨flags, bodyOfParts { rule with mask := mask } objectType inheritedType⟩ := by
  unfold bodyOfParts
  split <;> rfl

/-- **Of an entry that is accepted, only the mask changes with its field**: the other fields are
read as before, and what is wrong with the field is what is wrong with the text. -/
theorem parse_joinFields
    (h : parse (joinFields kind flags mask objectType inheritedType sid) = .ok entry)
    {text : List Char} (htext : ';' ∉ text) :
    ∃ changed : Mask → Entry, (∀ value, entry.withMask? value = some (changed value)) ∧
      parse (joinFields kind flags text objectType inheritedType sid)
        = (Mask.parse text).map changed := by
  obtain ⟨hkind, hflags, hmask, hobject, hinherited, hsid⟩ := not_mem_of_parse_joinFields h
  rw [parse, splitOn_joinFields hkind hflags hmask hobject hinherited hsid] at h
  rw [parse, splitOn_joinFields hkind hflags htext hobject hinherited hsid]
  unfold parseFields at h ⊢
  dsimp only at h ⊢
  split at h
  · cases h
  · cases h
  · rename_i qualifier callback _ _
    split at h
    · cases h
    · rename_i readFlags _
      obtain ⟨value, -, h⟩ := Outcome.bind_eq_ok_iff.mp h
      obtain ⟨readObject, hreadObject, h⟩ := Outcome.bind_eq_ok_iff.mp h
      obtain ⟨readInherited, hreadInherited, h⟩ := Outcome.bind_eq_ok_iff.mp h
      obtain ⟨readSid, hreadSid, h⟩ := Outcome.bind_eq_ok_iff.mp h
      rw [ofParts_eq_ok rfl] at h
      cases h
      refine ⟨_, withMask?_bodyOfParts _ _ _ _, ?_⟩
      cases Mask.parse text with
      | error e => rfl
      | ok value =>
          rw [Outcome.ok_bind, hreadObject, Outcome.ok_bind, hreadInherited, Outcome.ok_bind,
            hreadSid, Outcome.ok_bind, ofParts_eq_ok rfl]
          rfl

/-- **The mask field.**  Let six fields be accepted as an entry, and let another text without
semicolons take the place of the mask.  The result is the entry with another mask, and it is accepted
exactly if the text is one of the mask in the four notations, or a number with a plus sign; any other
text is malformed.  No notation provides for a sign. -/
theorem parse_maskField
    (h : parse (joinFields kind flags mask objectType inheritedType sid) = .ok entry)
    {text : List Char} (htext : ';' ∉ text) :
    (∀ value, (entry.withMask? value).isSome)
    ∧ (∀ changed, parse (joinFields kind flags text objectType inheritedType sid) = .ok changed
        ↔ ∃ value, (Mask.Documented text value ∨ Mask.Signed text value)
            ∧ entry.withMask? value = some changed)
    ∧ ((∀ value, ¬Mask.Documented text value ∧ ¬Mask.Signed text value) →
        ∃ fault, parse (joinFields kind flags text objectType inheritedType sid)
          = .error (.entry fault 0))
    ∧ (∀ value, Mask.Documented text value → Text.IsWord text)
    ∧ (∀ value, Mask.Signed text value → '+' ∈ text) := by
  obtain ⟨changed, hchanged, hparse⟩ := parse_joinFields h htext
  refine ⟨?_, ?_, ?_, fun _ => Mask.Documented.isWord, fun _ => Mask.Signed.plus_mem⟩
  · intro value
    rw [hchanged]
    rfl
  · intro result
    rw [hparse, Outcome.map_eq_ok_iff]
    simp [Mask.parse_eq_ok_iff, hchanged]
  · intro hrefused
    rw [hparse]
    cases hread : Mask.parse text with
    | ok value =>
        rcases Mask.parse_eq_ok_iff.mp hread with hdocumented | hsigned
        · exact absurd hdocumented (hrefused value).1
        · exact absurd hsigned (hrefused value).2
    | error e =>
        obtain ⟨fault, rfl⟩ := Mask.exists_fault_of_parse hread
        exact ⟨fault, rfl⟩

/-- A text that is a right token and a hexadecimal number is the token. -/
theorem parse_maskField_fileAll :
    ∃ entry changed,
      parse (joinFields ['A'] [] [] [] [] ['B', 'A']) = .ok entry
      ∧ entry.withMask? 0x1F01FF = some changed
      ∧ parse (joinFields ['A'] [] ['F', 'A'] [] [] ['B', 'A']) = .ok changed := by
  have hadministrators : parse (joinFields ['A'] [] [] [] [] ['B', 'A'])
      = .ok ⟨⟨0⟩, .common ⟨.allow, false, 0, ⟨5, [32, 544], by decide, by decide⟩, []⟩⟩ := by
    decide +kernel
  have htext : ';' ∉ ['F', 'A'] := by decide
  obtain ⟨htakes, hread, -⟩ := parse_maskField hadministrators htext
  obtain ⟨changed, hchanged⟩ := Option.isSome_iff_exists.mp (htakes 0x1F01FF)
  have hrun : Token.Run Mask.rights ['F', 'A'] [0x1F01FF] :=
    (Token.run?_eq_some_iff Mask.separable_rights).mp (by decide +kernel)
  have hunion : Mask.IsUnion 0x1F01FF [0x1F01FF] := Mask.isUnion_iff.mpr (by decide)
  exact ⟨_, changed, hadministrators, hchanged,
    (hread changed).mpr ⟨_, .inl (.rights (by decide) hrun hunion), hchanged⟩⟩

/-- The sign is let in: a text that no notation provides for is read as a mask. -/
theorem not_documented_of_parse :
    ¬∀ (text : List Char) (changed : Entry), ';' ∉ text →
      (parse (joinFields ['A'] [] text [] [] ['B', 'A']) = .ok changed →
        ∃ value, Mask.Documented text value ∧ changed.body.mask? = some value) := by
  intro hall
  have hread : parse (joinFields ['A'] [] ['+', '5'] [] [] ['B', 'A'])
      = .ok ⟨⟨0⟩, .common ⟨.allow, false, 5, ⟨5, [32, 544], by decide, by decide⟩, []⟩⟩ := by
    decide +kernel
  obtain ⟨value, hdocumented, -⟩ := hall _ _ (by decide) hread
  exact hdocumented.isWord.not_mem (by decide : '+'.isAlphanum = false) (by simp)

end Entry

end SecurityDescriptor
