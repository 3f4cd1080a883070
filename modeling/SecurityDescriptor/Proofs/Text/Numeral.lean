/-
**Numerals are read for what they are worth.**

A text is a numeral if it has a digit and nothing but digits, and what is read from it is its value.
The reader stops early at a value above its limit; since digits never make a number smaller, it
refuses exactly the numerals whose value is above the limit.  What the writers of numerals produce
is therefore read back, with or without leading zeros and in either case.

Main definitions:

* `Numeral.IsNumeral`, `Numeral.value` — texts of digits, and the number that they spell;
* `Numeral.Spells` — a text of one or more digits is a numeral of a number.

Main results:

* `Numeral.read?_eq_some_iff`, `Numeral.read?_eq_some_iff_spells` — **a numeral within the limit is
  read for its value**, and nothing else is read; `Numeral.map_read?_eq_some_iff` for words;
* `Numeral.value_toDigits`, `Numeral.value_fixedHex` — the values of what is written;
* `Numeral.read?_decimal`, `Numeral.read?_hex`, `Numeral.read?_fixedHex` — **a number that was
  written is read back**, and `Numeral.read?_fixedHex_toUpper` in upper case too;
* `Numeral.isAlphanum_of_digitValue?` — a digit is a letter or a decimal digit.
-/

import SecurityDescriptor.Text.Numeral

set_option relaxedAutoImplicit false
set_option autoImplicit false

namespace SecurityDescriptor

namespace Numeral

/-! ### Values -/

/-- All characters are digits. -/
def IsNumeral (base : Nat) (text : List Char) : Prop := ∀ c ∈ text, (digitValue? base c).isSome

/-- The number spelled by a text behind a numeral of value `n`; what is no digit counts as zero. -/
def valueFrom (base n : Nat) (text : List Char) : Nat :=
  text.foldl (fun n c => n * base + (digitValue? base c).getD 0) n

/-- **The number spelled by a text of digits.** -/
def value (base : Nat) (text : List Char) : Nat := valueFrom base 0 text

theorem valueFrom_cons (base n : Nat) (c : Char) (text : List Char) :
    valueFrom base n (c :: text) = valueFrom base (n * base + (digitValue? base c).getD 0) text :=
  rfl

theorem value_append_singleton (base : Nat) (text : List Char) (c : Char) :
    value base (text ++ [c]) = value base text * base + (digitValue? base c).getD 0 := by
  rw [value, valueFrom, List.foldl_append]
  rfl

theorem isNumeral_cons {base : Nat} {c : Char} {text : List Char} :
    IsNumeral base (c :: text) ↔ (digitValue? base c).isSome ∧ IsNumeral base text := by
  simp only [IsNumeral, List.mem_cons, forall_eq_or_imp]

theorem isNumeral_append {base : Nat} {a b : List Char} :
    IsNumeral base (a ++ b) ↔ IsNumeral base a ∧ IsNumeral base b := by
  simp only [IsNumeral, List.mem_append, or_imp, forall_and]

/-- Digits never make a number smaller. -/
theorem le_valueFrom {base : Nat} (hbase : 0 < base) (n : Nat) (text : List Char) :
    n ≤ valueFrom base n text := by
  induction text generalizing n with
  | nil => exact Nat.le_refl n
  | cons c text ih =>
      rw [valueFrom_cons]
      have hmul : n * 1 ≤ n * base := Nat.mul_le_mul_left n hbase
      have hrest := ih (n * base + (digitValue? base c).getD 0)
      omega

/-! ### Reading -/

theorem extend?_eq_some_iff {base limit n m : Nat} {c : Char} :
    extend? base limit n c = some m
      ↔ (digitValue? base c).isSome ∧ m = n * base + (digitValue? base c).getD 0 ∧ m ≤ limit := by
  unfold extend?
  cases digitValue? base c with
  | none => simp
  | some d =>
      simp only [Option.bind_some, Option.ite_none_right_eq_some, Option.some.injEq,
        Option.isSome_some, Option.getD_some, true_and]
      constructor
      · rintro ⟨hle, rfl⟩
        exact ⟨rfl, hle⟩
      · rintro ⟨rfl, hle⟩
        exact ⟨hle, rfl⟩

/-- Reading on behind a numeral that is within the limit. -/
theorem foldlM_extend?_eq_some_iff {base limit : Nat} (hbase : 0 < base) {n m : Nat}
    (hn : n ≤ limit) {text : List Char} :
    text.foldlM (extend? base limit) n = some m
      ↔ IsNumeral base text ∧ m = valueFrom base n text ∧ m ≤ limit := by
  induction text generalizing n with
  | nil =>
      simp only [List.foldlM_nil, valueFrom, List.foldl_nil]
      constructor
      · rintro ⟨⟩
        exact ⟨fun _ h => (List.not_mem_nil h).elim, rfl, hn⟩
      · rintro ⟨-, rfl, -⟩
        rfl
  | cons c text ih =>
      rw [List.foldlM_cons, isNumeral_cons, valueFrom_cons]
      constructor
      · intro h
        obtain ⟨k, hk, hrest⟩ := Option.bind_eq_some_iff.1 h
        obtain ⟨hdigit, rfl, hle⟩ := extend?_eq_some_iff.1 hk
        obtain ⟨hnum, hvalue, hm⟩ := (ih hle).1 hrest
        exact ⟨⟨hdigit, hnum⟩, hvalue, hm⟩
      · rintro ⟨⟨hdigit, hnum⟩, hvalue, hm⟩
        -- The value so far is below the final value, so the limit does not stop the reader here.
        have hle : n * base + (digitValue? base c).getD 0 ≤ limit := by
          have hgrow := le_valueFrom hbase (n * base + (digitValue? base c).getD 0) text
          omega
        exact Option.bind_eq_some_iff.2
          ⟨_, extend?_eq_some_iff.2 ⟨hdigit, rfl, hle⟩, (ih hle).2 ⟨hnum, hvalue, hm⟩⟩

/-- **A numeral within the limit is read for its value.** -/
theorem read?_eq_some_iff {base limit n : Nat} (hbase : 0 < base) {text : List Char} :
    read? base limit text = some n
      ↔ text ≠ [] ∧ IsNumeral base text ∧ n = value base text ∧ n ≤ limit := by
  unfold read?
  by_cases hnil : text = []
  · simp [hnil]
  · rw [if_neg hnil, foldlM_extend?_eq_some_iff hbase (Nat.zero_le limit)]
    simp only [value, ne_eq, hnil, not_false_eq_true, true_and]

/-- **The text is a numeral of the number**: one or more digits, with or without leading zeros. -/
def Spells (base : Nat) (text : List Char) (n : Nat) : Prop :=
  text ≠ [] ∧ IsNumeral base text ∧ value base text = n

theorem read?_eq_some_iff_spells {base limit n : Nat} (hbase : 0 < base) {text : List Char} :
    read? base limit text = some n ↔ Spells base text n ∧ n ≤ limit := by
  rw [read?_eq_some_iff hbase, Spells]
  constructor
  · rintro ⟨hne, hnumeral, rfl, hle⟩
    exact ⟨⟨hne, hnumeral, rfl⟩, hle⟩
  · rintro ⟨⟨hne, hnumeral, rfl⟩, hle⟩
    exact ⟨hne, hnumeral, rfl, hle⟩

theorem Spells.unique {base m n : Nat} {text : List Char} (hm : Spells base text m)
    (hn : Spells base text n) : m = n :=
  hm.2.2.symm.trans hn.2.2

/-- A word is read exactly from its numerals. -/
theorem map_read?_eq_some_iff {base : Nat} (hbase : 0 < base) {text : List Char} {word : UInt32} :
    (read? base (UInt32.size - 1) text).map UInt32.ofNat = some word
      ↔ Spells base text word.toNat := by
  rw [Option.map_eq_some_iff]
  constructor
  · rintro ⟨n, hread, rfl⟩
    obtain ⟨hspells, hle⟩ := (read?_eq_some_iff_spells hbase).mp hread
    have hlt : n < UInt32.size := Nat.lt_of_le_of_lt hle (by decide)
    rwa [UInt32.toNat_ofNat_of_lt' hlt]
  · intro hspells
    have hle : word.toNat ≤ UInt32.size - 1 := Nat.le_sub_one_of_lt word.toNat_lt
    exact ⟨word.toNat, (read?_eq_some_iff_spells hbase).mpr ⟨hspells, hle⟩, UInt32.ofNat_toNat⟩

/-! ### What is written -/

theorem digitValue?_digitChar {base d : Nat} (hbase : base ≤ 16) (hd : d < base) :
    digitValue? base (Nat.digitChar d) = some d := by
  rw [digitValue?, hexDigitValue?_digitChar (by omega), Option.filter_some,
    if_pos (decide_eq_true hd)]

/-- The numeral of a number spells that number. -/
theorem value_toDigits {base : Nat} (hlow : 1 < base) (hhigh : base ≤ 16) (n : Nat) :
    IsNumeral base (Nat.toDigits base n) ∧ value base (Nat.toDigits base n) = n := by
  -- The last digit is the remainder, and the digits before it are those of the quotient.
  induction n using Nat.strongRecOn with
  | ind n ih =>
      rw [Nat.toDigits_eq_if hlow]
      split
      · rename_i hlt
        have hdigit := digitValue?_digitChar hhigh hlt
        refine ⟨isNumeral_cons.2 ⟨by rw [hdigit]; rfl, fun _ h => (List.not_mem_nil h).elim⟩, ?_⟩
        simp only [value, valueFrom, List.foldl_cons, List.foldl_nil, hdigit, Option.getD_some]
        omega
      · rename_i hge
        have hmod : n % base < base := Nat.mod_lt n (by omega)
        have hdigit := digitValue?_digitChar hhigh hmod
        obtain ⟨hnum, hvalue⟩ := ih (n / base) (Nat.div_lt_self (by omega) hlow)
        refine ⟨isNumeral_append.2 ⟨hnum, isNumeral_cons.2
          ⟨by rw [hdigit]; rfl, fun _ h => (List.not_mem_nil h).elim⟩⟩, ?_⟩
        rw [value_append_singleton, hvalue, hdigit, Option.getD_some]
        exact Nat.div_add_mod' n base

/-- A number that was written without leading zeros is read back. -/
theorem read?_toDigits {base limit n : Nat} (hlow : 1 < base) (hhigh : base ≤ 16)
    (h : n ≤ limit) : read? base limit (Nat.toDigits base n) = some n := by
  obtain ⟨hnum, hvalue⟩ := value_toDigits hlow hhigh n
  exact (read?_eq_some_iff (by omega)).2 ⟨Nat.toDigits_ne_nil, hnum, hvalue.symm, h⟩

theorem read?_decimal {limit n : Nat} (h : n ≤ limit) : read? 10 limit (decimal n) = some n :=
  read?_toDigits (by decide) (by decide) h

theorem read?_hex {limit n : Nat} (h : n ≤ limit) : read? 16 limit (hex n) = some n :=
  read?_toDigits (by decide) (by decide) h

/-- A numeral of fixed width spells what fits in it. -/
theorem value_fixedHex (width n : Nat) :
    IsNumeral 16 (fixedHex width n) ∧ value 16 (fixedHex width n) = n % Nat.pow 16 width := by
  induction width generalizing n with
  | zero => exact ⟨fun _ h => (List.not_mem_nil h).elim, (Nat.mod_one n).symm⟩
  | succ width ih =>
      obtain ⟨hnum, hvalue⟩ := ih (n / 16)
      have hdigit := digitValue?_digitChar (Nat.le_refl 16) (Nat.mod_lt n (by decide : 0 < 16))
      refine ⟨isNumeral_append.2 ⟨hnum, isNumeral_cons.2
        ⟨by rw [hdigit]; rfl, fun _ h => (List.not_mem_nil h).elim⟩⟩, ?_⟩
      have hpow : Nat.pow 16 (width + 1) = 16 * Nat.pow 16 width := Nat.mul_comm ..
      rw [fixedHex, value_append_singleton, hvalue, hdigit, Option.getD_some, hpow, Nat.mod_mul]
      omega

/-- **A number that was written with leading zeros is read back.** -/
theorem read?_fixedHex {width limit n : Nat} (hwidth : 0 < width) (h : n < Nat.pow 16 width)
    (hlimit : n ≤ limit) : read? 16 limit (fixedHex width n) = some n := by
  obtain ⟨hnum, hvalue⟩ := value_fixedHex width n
  have hne : fixedHex width n ≠ [] := by
    rw [← List.length_pos_iff, length_fixedHex]
    exact hwidth
  refine (read?_eq_some_iff (by decide)).2 ⟨hne, hnum, ?_, hlimit⟩
  rw [hvalue, Nat.mod_eq_of_lt h]

/-- What is read is what fits in the width. -/
theorem read?_fixedHex_mod {width : Nat} (hwidth : 0 < width) (n : Nat) :
    read? 16 (Nat.pow 16 width - 1) (fixedHex width n) = some (n % Nat.pow 16 width) := by
  obtain ⟨hnum, hvalue⟩ := value_fixedHex width n
  have hne : fixedHex width n ≠ [] := by
    rw [← List.length_pos_iff, length_fixedHex]
    exact hwidth
  have hpos : 0 < Nat.pow 16 width := Nat.pow_pos (by decide)
  have hlt : n % Nat.pow 16 width < Nat.pow 16 width := Nat.mod_lt n hpos
  exact (read?_eq_some_iff (by decide)).2 ⟨hne, hnum, hvalue.symm, Nat.le_sub_one_of_lt hlt⟩

theorem exists_digitChar_of_mem_fixedHex {width n : Nat} {c : Char} (h : c ∈ fixedHex width n) :
    ∃ d < 16, c = Nat.digitChar d := by
  induction width generalizing n with
  | zero => exact (List.not_mem_nil h).elim
  | succ width ih =>
      rcases List.mem_append.1 h with h | h
      · exact ih h
      · exact ⟨n % 16, Nat.mod_lt n (by decide), List.mem_singleton.1 h⟩

/-- Upper case is read as lower case. -/
theorem digitValue?_toUpper_digitChar {d : Nat} (h : d < 16) :
    digitValue? 16 (Nat.digitChar d).toUpper = digitValue? 16 (Nat.digitChar d) := by
  have hall : ∀ e ∈ List.range 16,
      digitValue? 16 (Nat.digitChar e).toUpper = digitValue? 16 (Nat.digitChar e) := by decide
  exact hall d (List.mem_range.2 h)

/-- Replacing digits by digits of the same value changes nothing for the reader. -/
theorem read?_map {base limit : Nat} {f : Char → Char} {text : List Char}
    (h : ∀ c ∈ text, digitValue? base (f c) = digitValue? base c) :
    read? base limit (text.map f) = read? base limit text := by
  have hfold : ∀ n, (text.map f).foldlM (extend? base limit) n
      = text.foldlM (extend? base limit) n := by
    induction text with
    | nil => intro n; rfl
    | cons c text ih =>
        intro n
        have hc : extend? base limit n (f c) = extend? base limit n c := by
          simp only [extend?, h c (List.mem_cons_self ..)]
        rw [List.map_cons, List.foldlM_cons, List.foldlM_cons, hc]
        exact congrArg _ (funext (ih fun d hd => h d (List.mem_cons_of_mem c hd)))
  simp only [read?, List.map_eq_nil_iff, hfold]

theorem read?_fixedHex_toUpper {width limit n : Nat} (hwidth : 0 < width) (h : n < Nat.pow 16 width)
    (hlimit : n ≤ limit) : read? 16 limit ((fixedHex width n).map Char.toUpper) = some n := by
  rw [read?_map, read?_fixedHex hwidth h hlimit]
  intro c hc
  obtain ⟨d, hd, rfl⟩ := exists_digitChar_of_mem_fixedHex hc
  exact digitValue?_toUpper_digitChar hd

/-! ### Characters -/

/-- Letters and digits by their codes. -/
theorem isAlphanum_iff {c : Char} :
    c.isAlphanum = true ↔
      (('A' ≤ c ∧ c ≤ 'Z') ∨ ('a' ≤ c ∧ c ≤ 'z')) ∨ ('0' ≤ c ∧ c ≤ '9') := by
  have hranges : c.isAlphanum
      = ((decide ('A'.val ≤ c.val ∧ c.val ≤ 'Z'.val)
          || (decide ('a'.val ≤ c.val) && decide (c.val ≤ 'z'.val)))
        || (decide ('0'.val ≤ c.val) && decide (c.val ≤ '9'.val))) := rfl
  rw [hranges]
  simp only [Bool.or_eq_true, Bool.and_eq_true, decide_eq_true_eq, Char.le_def]

theorem isAlphanum_of_hexDigitValue? {c : Char} {d : Nat} (h : hexDigitValue? c = some d) :
    c.isAlphanum = true := by
  rw [isAlphanum_iff]
  unfold hexDigitValue? at h
  simp only [Char.le_def, UInt32.le_iff_toNat_le] at h ⊢
  split at h
  · rename_i hdigit
    exact .inr hdigit
  · split at h
    · rename_i hlower
      exact .inl (.inr ⟨hlower.1, Nat.le_trans hlower.2 (by decide)⟩)
    · split at h
      · rename_i hupper
        exact .inl (.inl ⟨hupper.1, Nat.le_trans hupper.2 (by decide)⟩)
      · cases h

/-- A digit is a letter or a decimal digit. -/
theorem isAlphanum_of_digitValue? {base : Nat} {c : Char} (h : (digitValue? base c).isSome) :
    c.isAlphanum = true := by
  obtain ⟨d, hd⟩ := Option.isSome_iff_exists.1 h
  exact isAlphanum_of_hexDigitValue? (Option.filter_eq_some_iff.1 hd).1

end Numeral

end SecurityDescriptor
