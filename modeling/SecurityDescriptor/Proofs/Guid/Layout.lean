/-
**The text and the bytes of a GUID.**

A GUID is written as five groups of digits and stored as sixteen bytes.  The bytes are those that the
groups spell, but the first three groups are stored as numbers with the least significant byte first,
and so stand in reverse, while the last two are stored as they are written.  A text in upper case is
another text of the same GUID, whose own text is in lower case.

Main definitions:

* `Guid.ReadsGroup`, `Guid.Reads` — the number in a group of digits, and the GUID in a text;
* `Guid.GroupBytes`, `Guid.GroupBytes.stored` — the bytes of the five groups, and how they are stored;
* `Guid.GroupBytes.SpelledBy` — the text in which they are written.

Main results:

* `Guid.parse_eq_ok_iff` — a text is read as a GUID exactly if it is five groups of digits;
* `Guid.Reads.render_eq` — **the GUID in a text is written as the text in lower case**;
* `Guid.parse_eq_ok_iff_spelledBy` — **the bytes of a GUID are those that its text spells**, the
  first three groups in reverse;
* `Guid.exists_parse_iff` — which texts are those of a GUID, byte by byte;
* `Guid.text_and_bytes` — text and bytes together.
-/

import Mathlib.Data.List.Induction
import SecurityDescriptor.Proofs.Entry.Positional
import SecurityDescriptor.Proofs.Guid.Scanning
import SecurityDescriptor.Proofs.Text.Guid

set_option relaxedAutoImplicit false
set_option autoImplicit false

namespace SecurityDescriptor

open Checked

/-! ### Digits -/

namespace Numeral

/-- What is left of a number in its last digits is written with these digits. -/
theorem fixedHex_mod (width n : Nat) : fixedHex width (n % Nat.pow 16 width) = fixedHex width n := by
  induction width generalizing n with
  | zero => rfl
  | succ width ih =>
      have hpow : Nat.pow 16 (width + 1) = 16 * Nat.pow 16 width := Nat.mul_comm ..
      rw [fixedHex, fixedHex, hpow, Nat.mod_mul_right_div_self, ih, Nat.mod_mul_right_mod]

/-- **A numeral in either case is the numeral of its value**, in lower case. -/
theorem fixedHex_value {text : List Char} (h : IsNumeral 16 text) :
    fixedHex text.length (value 16 text) = text.map Char.toLower := by
  induction text using List.reverseRecOn with
  | nil => rfl
  | append_singleton text c ih =>
      obtain ⟨htext, hc⟩ := isNumeral_append.mp h
      obtain ⟨d, hd⟩ := Option.isSome_iff_exists.mp (hc c (List.mem_singleton_self c))
      obtain ⟨hlt, hchar⟩ := digitChar_of_hexDigitValue? (digitValue?_sixteen c ▸ hd)
      have hdiv : (value 16 text * 16 + d) / 16 = value 16 text := by omega
      have hmod : (value 16 text * 16 + d) % 16 = d := by omega
      rw [List.length_append, List.length_singleton, value_append_singleton, hd, Option.getD_some,
        fixedHex, hdiv, hmod, ih htext, hchar, List.map_append]
      rfl

end Numeral

namespace Guid

/-! ### Groups -/

/-- **The number in a group of digits**, two for each byte. -/
def ReadsGroup (width : Nat) (digits : List Char) (n : Nat) : Prop :=
  digits.length = 2 * width ∧
    Numeral.read? 16 (Nat.pow 16 (2 * width) - 1) digits = some n

namespace ReadsGroup

variable {width n : Nat} {digits : List Char}

theorem isWord (h : ReadsGroup width digits n) : Text.IsWord digits :=
  Numeral.isWord_of_read? (by decide) h.2

theorem lt (h : ReadsGroup width digits n) : n < Nat.pow 16 (2 * width) := by
  have hle := ((Numeral.read?_eq_some_iff (by decide)).mp h.2).2.2.2
  have hpos : 0 < Nat.pow 16 (2 * width) := Nat.pow_pos (by decide)
  omega

/-- A group is written as its digits in lower case. -/
theorem fixedHex_eq (h : ReadsGroup width digits n) :
    Numeral.fixedHex (2 * width) n = digits.map Char.toLower := by
  obtain ⟨-, hnumeral, rfl, -⟩ := (Numeral.read?_eq_some_iff (by decide)).mp h.2
  rw [← h.1, Numeral.fixedHex_value hnumeral]

/-- A group of digits spells the bytes of its number. -/
theorem exists_spells (hpos : 0 < width) (h : ReadsGroup width digits n) :
    ∃ bytes : Vector UInt8 width, HexPairs.Spells (Text.octets digits) bytes.toList ∧
      Octets.bigValue bytes.toList = n := by
  have hbears := Text.bears_octets digits
  have hplain := h.isWord.isPlain.columns_eq
  have hlength : (Text.octets digits).length = 2 * width := by
    rw [← hbears.length_eq, hplain, h.1]
  have hread := HexPairs.read?_eq hpos hbears hlength
  rw [hplain, h.2] at hread
  obtain ⟨bytes, hbytes, hvalue⟩ := Option.map_eq_some_iff.mp hread.symm
  have hspells := HexPairs.bytes?_eq_some_iff.mp hbytes
  have hwidth : bytes.length = width := by
    have heven := hspells.length
    omega
  exact ⟨⟨bytes.toArray, hwidth⟩, hspells, hvalue⟩

/-- Digits that spell bytes are a group. -/
theorem of_spells (hpos : 0 < width) {bytes : Vector UInt8 width}
    (h : HexPairs.Spells (Text.octets digits) bytes.toList) :
    ReadsGroup width digits (Octets.bigValue bytes.toList) := by
  have hbears := Text.bears_octets digits
  have hplain := (HexPairs.isWord_of_spells h).isPlain.columns_eq
  have hlength : (Text.octets digits).length = 2 * width := by
    rw [h.length, Vector.length_toList]
  have hread := HexPairs.read?_eq hpos hbears hlength
  rw [hplain, HexPairs.bytes?_eq_some_iff.mpr h, Option.map_some] at hread
  exact ⟨by rw [← hlength, ← hbears.length_eq, hplain], hread⟩

end ReadsGroup

/-! ### Texts -/

/-- **The GUID in a text** of five groups of digits. -/
inductive Reads : List Char → Guid → Prop
  | groups {a b c d e : List Char} {n₁ n₂ n₃ n₄ n₅ : Nat} (ha : ReadsGroup 4 a n₁)
      (hb : ReadsGroup 2 b n₂) (hc : ReadsGroup 2 c n₃) (hd : ReadsGroup 2 d n₄)
      (he : ReadsGroup 6 e n₅) :
      Reads (joinGroups a b c d e)
        ⟨.ofNat n₁, .ofNat n₂, .ofNat n₃, .ofNat (n₄ * 0x1000000000000 + n₅)⟩

/-- Up to a hyphen and from behind it on. -/
theorem drop_eq_of_hyphen {columns : List Char} {start count : Nat}
    (h : columns[start + count]? = some '-') :
    columns.drop start
      = (columns.drop start).take count ++ '-' :: columns.drop (start + count + 1) := by
  obtain ⟨hlt, hhyphen⟩ := List.getElem?_eq_some_iff.mp h
  rw [← hhyphen, ← List.drop_eq_getElem_cons hlt, ← List.drop_drop, List.take_append_drop]

/-- A text of the right shape is five groups with hyphens between them. -/
theorem columns_eq_joinGroups {text : List Char} (h : hasShape text = true) :
    Text.columns text = joinGroups (((Text.columns text).drop 0).take 8)
      (((Text.columns text).drop 9).take 4) (((Text.columns text).drop 14).take 4)
      (((Text.columns text).drop 19).take 4) (((Text.columns text).drop 24).take 12) := by
  rw [hasShape, Bool.and_eq_true, beq_iff_eq, List.all_eq_true] at h
  obtain ⟨hlength, hhyphens⟩ := h
  have hhyphen : ∀ {start count : Nat}, start + count ∈ hyphenColumns →
      (Text.columns text)[start + count]? = some '-' :=
    fun hmem => eq_of_beq (hhyphens _ hmem)
  have hlast : ((Text.columns text).drop 24).take 12 = (Text.columns text).drop 24 := by
    rw [List.take_of_length_le (by simp [hlength])]
  have hfirst := @drop_eq_of_hyphen _ 0 8 (@hhyphen 0 8 (by decide))
  have hsecond := @drop_eq_of_hyphen _ 9 4 (@hhyphen 9 4 (by decide))
  have hthird := @drop_eq_of_hyphen _ 14 4 (@hhyphen 14 4 (by decide))
  have hfourth := @drop_eq_of_hyphen _ 19 4 (@hhyphen 19 4 (by decide))
  rw [joinGroups, hlast, ← hfourth, ← hthird, ← hsecond, ← hfirst, List.drop_zero]

/-- Plain columns are those of a plain text. -/
theorem eq_of_isPlain_columns {text : List Char} (h : Text.IsPlain (Text.columns text)) :
    Text.columns text = text := by
  have hplain : Text.IsPlain text := fun c hc => h c (Text.mem_columns hc)
  exact hplain.columns_eq

theorem isPlain_joinGroups {a b c d e : List Char} (ha : Text.IsWord a) (hb : Text.IsWord b)
    (hc : Text.IsWord c) (hd : Text.IsWord d) (he : Text.IsWord e) :
    Text.IsPlain (joinGroups a b c d e) := by
  simp [joinGroups, Text.isPlain_append, Text.isPlain_cons, ha.isPlain, hb.isPlain, hc.isPlain,
    hd.isPlain, he.isPlain]

theorem parseGroup_eq_ok_iff {columns : List Char} {start width n : Nat}
    (hlength : ((columns.drop start).take (2 * width)).length = 2 * width) :
    parseGroup columns start (2 * width) = .ok n
      ↔ ReadsGroup width ((columns.drop start).take (2 * width)) n := by
  rw [parseGroup, ReadsGroup, and_iff_right hlength]
  cases Numeral.read? 16 (Nat.pow 16 (2 * width) - 1) ((columns.drop start).take (2 * width)) with
  | none => simp
  | some m => simp

/-- **A text is read as a GUID exactly if it is five groups of digits.** -/
theorem parse_eq_ok_iff {text : List Char} {g : Guid} : parse text = .ok g ↔ Reads text g := by
  constructor
  · intro h
    rw [parse] at h
    split at h
    · rename_i hshape
      obtain ⟨n₁, h₁, h⟩ := Outcome.bind_eq_ok_iff.mp h
      obtain ⟨n₂, h₂, h⟩ := Outcome.bind_eq_ok_iff.mp h
      obtain ⟨n₃, h₃, h⟩ := Outcome.bind_eq_ok_iff.mp h
      obtain ⟨n₄, h₄, h⟩ := Outcome.bind_eq_ok_iff.mp h
      obtain ⟨n₅, h₅, h⟩ := Outcome.bind_eq_ok_iff.mp h
      cases h
      have hwidth : (Text.columns text).length = 36 := by
        rw [Text.length_columns, ← Text.length_octets]
        exact (hasShape_iff.mp hshape).1
      have hslice : ∀ {start count : Nat}, start + count ≤ 36 →
          (((Text.columns text).drop start).take count).length = count := by
        intro start count hle
        rw [List.length_take, List.length_drop, hwidth]
        omega
      have ha : ReadsGroup 4 _ n₁ := (parseGroup_eq_ok_iff (hslice (by decide))).mp h₁
      have hb : ReadsGroup 2 _ n₂ := (parseGroup_eq_ok_iff (hslice (by decide))).mp h₂
      have hc : ReadsGroup 2 _ n₃ := (parseGroup_eq_ok_iff (hslice (by decide))).mp h₃
      have hd : ReadsGroup 2 _ n₄ := (parseGroup_eq_ok_iff (hslice (by decide))).mp h₄
      have he : ReadsGroup 6 _ n₅ := (parseGroup_eq_ok_iff (hslice (by decide))).mp h₅
      have hjoin := columns_eq_joinGroups hshape
      have hplain := isPlain_joinGroups ha.isWord hb.isWord hc.isWord hd.isWord he.isWord
      have htext : Text.columns text = text := eq_of_isPlain_columns (hjoin ▸ hplain)
      have hreads := Reads.groups ha hb hc hd he
      rwa [← hjoin, htext] at hreads
    · cases h
  · rintro ⟨ha, hb, hc, hd, he⟩
    obtain ⟨h₁, h₂, h₃, h₄, h₅⟩ := slices_joinGroups ha.1 hb.1 hc.1 hd.1 he.1
    have hplain := isPlain_joinGroups ha.isWord hb.isWord hc.isWord hd.isWord he.isWord
    rw [parse, if_pos (hasShape_joinGroups ha.1 hb.1 hc.1 hd.1 he.1 hplain), hplain.columns_eq]
    dsimp only
    rw [parseGroup_eq_ok h₁ ha.2, Outcome.ok_bind, parseGroup_eq_ok h₂ hb.2, Outcome.ok_bind,
      parseGroup_eq_ok h₃ hc.2, Outcome.ok_bind, parseGroup_eq_ok h₄ hd.2, Outcome.ok_bind,
      parseGroup_eq_ok h₅ he.2, Outcome.ok_bind]
    rfl

/-- **The GUID in a text is written as the text in lower case.** -/
theorem Reads.render_eq {text : List Char} {g : Guid} (h : Reads text g) :
    g.render = text.map Char.toLower := by
  obtain ⟨ha, hb, hc, hd, he⟩ := h
  rename_i a b c d e n₁ n₂ n₃ n₄ n₅
  have h₁ : (UInt32.ofNat n₁).toNat = n₁ := UInt32.toNat_ofNat_of_lt' ha.lt
  have h₂ : (UInt16.ofNat n₂).toNat = n₂ := UInt16.toNat_ofNat_of_lt' hb.lt
  have h₃ : (UInt16.ofNat n₃).toNat = n₃ := UInt16.toNat_ofNat_of_lt' hc.lt
  have hfourth : n₄ < 0x10000 := hd.lt
  have hfifth : n₅ < 0x1000000000000 := he.lt
  have hlast : (UInt64.ofNat (n₄ * 0x1000000000000 + n₅)).toNat = n₄ * 0x1000000000000 + n₅ :=
    UInt64.toNat_ofNat_of_lt' (show _ < 0x10000000000000000 by omega)
  have hhigh : (n₄ * 0x1000000000000 + n₅) / 0x1000000000000 = n₄ := by omega
  have hlow : (n₄ * 0x1000000000000 + n₅) % Nat.pow 16 12 = n₅ := by
    rw [show Nat.pow 16 12 = 0x1000000000000 from rfl]
    omega
  rw [render_eq_joinGroups]
  dsimp only
  rw [h₁, h₂, h₃, hlast, hhigh, ← Numeral.fixedHex_mod 12, hlow]
  have ga := ha.fixedHex_eq
  have gb := hb.fixedHex_eq
  have gc := hc.fixedHex_eq
  have gd := hd.fixedHex_eq
  have ge := he.fixedHex_eq
  rw [ga, gb, gc, gd, ge]
  simp [joinGroups]

/-! ### Bytes -/

/-- The bytes of the five groups. -/
structure GroupBytes where
  first : Vector UInt8 4
  second : Vector UInt8 2
  third : Vector UInt8 2
  fourth : Vector UInt8 2
  fifth : Vector UInt8 6

namespace GroupBytes

/-- The groups as they are stored: the first three in reverse, the last two in order. -/
def stored (groups : GroupBytes) : List UInt8 :=
  groups.first.toList.reverse ++ (groups.second.toList.reverse ++ (groups.third.toList.reverse ++
    (groups.fourth.toList ++ groups.fifth.toList)))

/-- The text is five groups of digits that spell these bytes. -/
inductive SpelledBy (groups : GroupBytes) : List Char → Prop
  | join {a b c d e : List Char} (ha : HexPairs.Spells (Text.octets a) groups.first.toList)
      (hb : HexPairs.Spells (Text.octets b) groups.second.toList)
      (hc : HexPairs.Spells (Text.octets c) groups.third.toList)
      (hd : HexPairs.Spells (Text.octets d) groups.fourth.toList)
      (he : HexPairs.Spells (Text.octets e) groups.fifth.toList) :
      SpelledBy groups (joinGroups a b c d e)

/-- The GUID with these bytes. -/
def toGuid (groups : GroupBytes) : Guid :=
  ⟨.ofNat (Octets.bigValue groups.first.toList), .ofNat (Octets.bigValue groups.second.toList),
    .ofNat (Octets.bigValue groups.third.toList),
    .ofNat (Octets.bigValue groups.fourth.toList * 0x1000000000000
      + Octets.bigValue groups.fifth.toList)⟩

/-- What is stored for a GUID is the bytes of its groups. -/
theorem encode_toGuid (groups : GroupBytes) : groups.toGuid.encode = groups.stored := by
  obtain ⟨first, second, third, fourth, fifth⟩ := groups
  have hlittle : ∀ {width : Nat} (bytes : Vector UInt8 width),
      Octets.little width (Octets.bigValue bytes.toList) = bytes.toList.reverse := by
    intro width bytes
    have h := Octets.little_bigValue bytes.toList
    rwa [Vector.length_toList] at h
  have hlt : ∀ {width : Nat} (bytes : Vector UInt8 width),
      Octets.bigValue bytes.toList < Nat.pow 256 width := by
    intro width bytes
    have h := Octets.bigValue_lt bytes.toList
    rwa [Vector.length_toList] at h
  have hlast : Octets.bigValue fourth.toList * 0x1000000000000 + Octets.bigValue fifth.toList
      = Octets.bigValue (fourth.toList ++ fifth.toList) := by
    rw [Octets.bigValue_append, Vector.length_toList]
  have hlength : (fourth.toList ++ fifth.toList).length = 8 := by simp
  have hbig := Octets.big_bigValue (fourth.toList ++ fifth.toList)
  have hlastLt := Octets.bigValue_lt (fourth.toList ++ fifth.toList)
  rw [hlength] at hbig hlastLt
  rw [encode, toGuid, stored, hlast]
  dsimp only
  rw [UInt32.toNat_ofNat_of_lt' (hlt first), UInt16.toNat_ofNat_of_lt' (hlt second),
    UInt16.toNat_ofNat_of_lt' (hlt third), UInt64.toNat_ofNat_of_lt' hlastLt, hlittle, hlittle,
    hlittle, hbig]

/-- The text of groups is the text of their GUID. -/
theorem SpelledBy.reads {groups : GroupBytes} {text : List Char} (h : groups.SpelledBy text) :
    Reads text groups.toGuid := by
  obtain ⟨ha, hb, hc, hd, he⟩ := h
  exact .groups (.of_spells (by decide) ha) (.of_spells (by decide) hb) (.of_spells (by decide) hc)
    (.of_spells (by decide) hd) (.of_spells (by decide) he)

end GroupBytes

/-- A text of a GUID is the text of its groups. -/
theorem Reads.exists_spelledBy {text : List Char} {g : Guid} (h : Reads text g) :
    ∃ groups : GroupBytes, groups.SpelledBy text ∧ groups.toGuid = g := by
  obtain ⟨ha, hb, hc, hd, he⟩ := h
  obtain ⟨first, hfirst, rfl⟩ := ha.exists_spells (by decide)
  obtain ⟨second, hsecond, rfl⟩ := hb.exists_spells (by decide)
  obtain ⟨third, hthird, rfl⟩ := hc.exists_spells (by decide)
  obtain ⟨fourth, hfourth, rfl⟩ := hd.exists_spells (by decide)
  obtain ⟨fifth, hfifth, rfl⟩ := he.exists_spells (by decide)
  exact ⟨⟨first, second, third, fourth, fifth⟩, .join hfirst hsecond hthird hfourth hfifth, rfl⟩

theorem encode_inj {g other : Guid} (h : g.encode = other.encode) : g = other := by
  have hread := decode?_encode_append g []
  rw [h, decode?_encode_append] at hread
  cases hread
  rfl

/-- **The bytes of a GUID are those that its text spells**, the first three groups in reverse. -/
theorem parse_eq_ok_iff_spelledBy {text : List Char} {g : Guid} :
    parse text = .ok g ↔ ∃ groups : GroupBytes, groups.SpelledBy text ∧ g.encode = groups.stored := by
  rw [parse_eq_ok_iff]
  constructor
  · intro h
    obtain ⟨groups, hspelled, rfl⟩ := h.exists_spelledBy
    exact ⟨groups, hspelled, groups.encode_toGuid⟩
  · rintro ⟨groups, hspelled, hencode⟩
    rw [← groups.encode_toGuid] at hencode
    rw [encode_inj hencode]
    exact hspelled.reads

/-! ### Which texts are those of a GUID -/

theorem exists_spelledGroup_iff {bytes : List UInt8} {start width : Nat}
    (h : start + 2 * width ≤ bytes.length) :
    (∃ piece, spelledGroup bytes start width = .ok piece)
      ↔ ∀ i b, start ≤ i → i < start + 2 * width → bytes[i]? = some b →
          (HexPairs.digit? b).isSome := by
  have hlength : ((bytes.drop start).take (2 * width)).length = 2 * width := by
    rw [List.length_take, List.length_drop]
    omega
  have hpairs : (∃ piece, spelledGroup bytes start width = .ok piece)
      ↔ (HexPairs.bytes? ((bytes.drop start).take (2 * width))).isSome := by
    unfold spelledGroup
    cases HexPairs.bytes? ((bytes.drop start).take (2 * width)) <;> simp
  rw [hpairs, HexPairs.isSome_bytes?_iff hlength]
  constructor
  · intro hdigits i b hstart hstop hb
    refine hdigits b (List.mem_iff_getElem?.mpr ⟨i - start, ?_⟩)
    rw [List.getElem?_take_of_lt (by omega), List.getElem?_drop, Nat.add_sub_cancel' hstart, hb]
  · intro hdigits b hb
    obtain ⟨i, hi, hget⟩ := List.mem_iff_getElem.mp hb
    rw [hlength] at hi
    rw [List.getElem_take, List.getElem_drop] at hget
    exact hdigits (start + i) b (by omega) (by omega) (List.getElem?_eq_some_iff.mpr ⟨by omega, hget⟩)

theorem exists_parse_iff_groups {text : List Char} :
    (∃ g, parse text = .ok g) ↔ hasShape text = true ∧
      ∀ part ∈ layout, ∃ piece, spelledGroup (Text.octets text) part.1 part.2 = .ok piece := by
  simp only [layout, List.mem_cons, List.not_mem_nil, or_false, forall_eq_or_imp, forall_eq]
  constructor
  · rintro ⟨g, h⟩
    have hshape : hasShape text = true := by
      rw [parse] at h
      split at h
      · assumption
      · cases h
    rw [parse_eq hshape] at h
    obtain ⟨a, ha, h⟩ := Outcome.bind_eq_ok_iff.mp h
    obtain ⟨b, hb, h⟩ := Outcome.bind_eq_ok_iff.mp h
    obtain ⟨c, hc, h⟩ := Outcome.bind_eq_ok_iff.mp h
    obtain ⟨d, hd, h⟩ := Outcome.bind_eq_ok_iff.mp h
    obtain ⟨e, he, -⟩ := Outcome.bind_eq_ok_iff.mp h
    exact ⟨hshape, ⟨a, ha⟩, ⟨b, hb⟩, ⟨c, hc⟩, ⟨d, hd⟩, ⟨e, he⟩⟩
  · rintro ⟨hshape, ⟨a, ha⟩, ⟨b, hb⟩, ⟨c, hc⟩, ⟨d, hd⟩, ⟨e, he⟩⟩
    rw [parse_eq hshape, ha, hb, hc, hd, he]
    exact ⟨_, rfl⟩

/-- What may stand in the byte with the given number of the text of a GUID. -/
def Fits (i : Nat) (b : UInt8) : Prop :=
  if i ∈ hyphenColumns then b = '-'.toUInt8 else (HexPairs.digit? b).isSome

/-- **The texts of GUIDs**: 36 bytes, hyphens in four of them and digits in the others. -/
theorem exists_parse_iff {text : List Char} :
    (∃ g, parse text = .ok g) ↔ (Text.octets text).length = 36 ∧
      ∀ i b, (Text.octets text)[i]? = some b → Fits i b := by
  have hcover : ∀ i < 36, i ∉ hyphenColumns →
      ∃ part ∈ layout, part.1 ≤ i ∧ i < part.1 + 2 * part.2 := by decide
  have hapart : ∀ part ∈ layout, ∀ i < 36, part.1 ≤ i → i < part.1 + 2 * part.2 →
      i ∉ hyphenColumns := by decide
  rw [exists_parse_iff_groups, hasShape_iff, and_assoc]
  refine and_congr_right fun hlength => ?_
  have hstop := le_length_of_mem_layout hlength
  constructor
  · rintro ⟨hhyphens, hgroups⟩ i b hb
    have hi : i < 36 := hlength ▸ (List.getElem?_eq_some_iff.mp hb).1
    unfold Fits
    split
    · rename_i hmem
      exact Option.some_inj.mp (hb.symm.trans (hhyphens i hmem))
    · rename_i hmem
      obtain ⟨part, hpart, hstart, hend⟩ := hcover i hi hmem
      exact (exists_spelledGroup_iff (hstop part hpart)).mp (hgroups part hpart) i b hstart hend hb
  · intro hfits
    have hinside : ∀ i ∈ hyphenColumns, i < (Text.octets text).length := by
      rw [hlength]
      decide
    refine ⟨fun i hmem => ?_, fun part hpart => ?_⟩
    · have hb := List.getElem?_eq_getElem (hinside i hmem)
      have hfit := hfits i _ hb
      rw [Fits, if_pos hmem] at hfit
      rw [hb, hfit]
    · refine (exists_spelledGroup_iff (hstop part hpart)).mpr fun i b hstart hend hb => ?_
      have hi : i < 36 := hlength ▸ (List.getElem?_eq_some_iff.mp hb).1
      have hfit := hfits i b hb
      rwa [Fits, if_neg (hapart part hpart i hi hstart hend)] at hfit

/-! ### Text and bytes -/

/-- All sixteen bytes are those of a GUID. -/
theorem exists_readPacked {packed : List UInt8} (h : packed.length = size) :
    ∃ g, readPacked packed = pure g ∧ g.encode = packed := by
  have hcut : Octets.split? size packed = some (packed, []) := by
    have happend := Octets.split?_append [] h
    rwa [List.append_nil] at happend
  obtain ⟨g, -, hread, hdecode⟩ := readPacked_eq hcut
  have hencode := decode?_eq_some_iff.mp hdecode
  rw [List.append_nil] at hencode
  exact ⟨g, hread, hencode.symm⟩

theorem readPacked_encode (g : Guid) : readPacked g.encode = pure g := by
  obtain ⟨other, hread, hencode⟩ := exists_readPacked g.length_encode
  rw [hread, encode_inj hencode]

/-- **The text and the bytes of a GUID.**  If the decoder decodes exactly pairs of digits: a text is
read as a GUID exactly if it has 36 bytes, with hyphens in four of them and digits in the others;
the GUID is then written as this text in lower case, and its bytes are those that the groups of the
text spell, the first three groups in reverse.  Every GUID is read back from its text and from its
bytes, and all sixteen bytes are those of a GUID. -/
theorem text_and_bytes {decode : HexDecoder} (hdecode : decode.DecodesPairs) :
    (∀ text : List Char, (∃ g, (scan decode text).run = .ok (.ok g))
      ↔ (Text.octets text).length = 36 ∧ ∀ i b, (Text.octets text)[i]? = some b → Fits i b)
    ∧ (∀ (text : List Char) (g : Guid), (scan decode text).run = .ok (.ok g) →
        g.render = text.map Char.toLower ∧
        ∃ groups : GroupBytes, groups.SpelledBy text ∧ g.encode = groups.stored)
    ∧ (∀ g : Guid, (scan decode g.render).run = .ok (.ok g))
    ∧ (∀ packed : List UInt8, packed.length = size →
        ∃ g, (readPacked packed).run = .ok (.ok g) ∧ g.encode = packed)
    ∧ ∀ g : Guid, g.encode.length = size ∧ (readPacked g.encode).run = .ok (.ok g) := by
  have hrun : ∀ (text : List Char) (g : Guid),
      (scan decode text).run = .ok (.ok g) ↔ parse text = .ok g := by
    intro text g
    rw [scan_eq hdecode, run_settled, Except.ok.injEq]
  simp only [hrun]
  refine ⟨fun _ => exists_parse_iff, fun text g h => ?_, parse_render, fun packed h => ?_,
    fun g => ⟨g.length_encode, ?_⟩⟩
  · exact ⟨(parse_eq_ok_iff.mp h).render_eq, parse_eq_ok_iff_spelledBy.mp h⟩
  · obtain ⟨g, hread, hencode⟩ := exists_readPacked h
    rw [hread]
    exact ⟨g, rfl, hencode⟩
  · rw [readPacked_encode]
    rfl

/-- A text in upper case, and the bytes behind it. -/
theorem text_and_bytes_upperCase :
    let text := "6B29FC40-CA47-1067-B31D-00DD010662DA".toList
    let g : Guid := ⟨0x6B29FC40, 0xCA47, 0x1067, 0xB31D00DD010662DA⟩
    let bytes : List UInt8 := [0x40, 0xFC, 0x29, 0x6B, 0x47, 0xCA, 0x67, 0x10,
      0xB3, 0x1D, 0x00, 0xDD, 0x01, 0x06, 0x62, 0xDA]
    (scan HexPairs.decode text).run = .ok (.ok g)
      ∧ g.render = "6b29fc40-ca47-1067-b31d-00dd010662da".toList
      ∧ g.encode = bytes ∧ (readPacked bytes).run = .ok (.ok g) := by
  intro text g bytes
  obtain ⟨-, hread, -, -, hbytes⟩ := text_and_bytes HexPairs.decodesPairs_decode
  have hscan : (scan HexPairs.decode text).run = .ok (.ok g) := by decide +kernel
  have hlower : text.map Char.toLower = "6b29fc40-ca47-1067-b31d-00dd010662da".toList := by
    decide +kernel
  have hencode : g.encode = bytes := by decide +kernel
  exact ⟨hscan, (hread text g hscan).1.trans hlower, hencode, hencode ▸ (hbytes g).2⟩

end Guid

end SecurityDescriptor
