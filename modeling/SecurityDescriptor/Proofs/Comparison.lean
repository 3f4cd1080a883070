/-
**Numerals of one width compare as the numbers that they spell.**

Lists are compared element by element, and the first difference decides.  Where the front parts of
two lists have the same length, the front parts are compared first, and the rest only if they do not
differ.  So a number that is written with a fixed count of digits, the most significant first, is
compared digit by digit as it is compared by value, if only the digits are.

Main definitions:

* `Comparison.IsPlaceNotation` — numbers are written digit by digit, the most significant first.

Main results:

* `Comparison.compareLex_append` — **lists are compared by their front parts and then by the rest**;
* `Comparison.compare_div_mod` — numbers are compared by their quotients and then by their
  remainders;
* `Comparison.IsPlaceNotation.compareLex_eq` — **numerals of one width compare as their values**;
* `Comparison.compare_toNat` — machine words compare as numbers.
-/

import SecurityDescriptor.Octets

set_option relaxedAutoImplicit false
set_option autoImplicit false

namespace SecurityDescriptor

namespace Comparison

/-! ### Lists -/

/-- **Lists are compared by their front parts and then by the rest**, where the front parts have the
same length. -/
theorem compareLex_append {α : Type} (cmp : α → α → Ordering) {a b : List α}
    (h : a.length = b.length) (c d : List α) :
    List.compareLex cmp (a ++ c) (b ++ d)
      = (List.compareLex cmp a b).then (List.compareLex cmp c d) := by
  induction a generalizing b with
  | nil =>
      have hnil : b = [] := List.eq_nil_of_length_eq_zero h.symm
      simp [hnil, List.compareLex_nil_nil]
  | cons x a ih =>
      cases b with
      | nil => simp at h
      | cons y b =>
          have hlength : a.length = b.length := by simpa using h
          rw [List.cons_append, List.cons_append, List.compareLex_cons_cons,
            List.compareLex_cons_cons, ih hlength, Ordering.then_assoc]

theorem compareLex_singleton {α : Type} (cmp : α → α → Ordering) (x y : α) :
    List.compareLex cmp [x] [y] = cmp x y := by
  rw [List.compareLex_cons_cons, List.compareLex_nil_nil, Ordering.then_eq]

/-! ### Numbers -/

/-- Numbers are compared by their quotients and then by their remainders. -/
theorem compare_div_mod (base m n : Nat) :
    compare m n = (compare (m / base) (n / base)).then (compare (m % base) (n % base)) := by
  have hm : base * (m / base) + m % base = m := Nat.div_add_mod m base
  have hn : base * (n / base) + n % base = n := Nat.div_add_mod n base
  rcases Nat.lt_trichotomy (m / base) (n / base) with hlt | heq | hgt
  · have hless : m < n := Nat.lt_of_div_lt_div hlt
    rw [Nat.compare_eq_lt.mpr hlt, Nat.compare_eq_lt.mpr hless]
    rfl
  · rw [heq] at hm
    rw [Nat.compare_eq_eq.mpr heq, Ordering.eq_then]
    simp only [Nat.compare_eq_ite_lt]
    -- The quotients are the same, so both sides ask about the same difference.
    have hiff : m < n ↔ m % base < n % base := by omega
    have hiff' : n < m ↔ n % base < m % base := by omega
    simp only [hiff, hiff']
  · have hless : n < m := Nat.lt_of_div_lt_div hgt
    rw [Nat.compare_eq_gt.mpr hgt, Nat.compare_eq_gt.mpr hless]
    rfl

/-- A type whose order is that of the numbers of its values is compared by these numbers. -/
theorem compare_toNat {α : Type} [LT α] [DecidableLT α] [DecidableEq α] (toNat : α → Nat)
    (hlt : ∀ {x y : α}, x < y ↔ toNat x < toNat y) (hinj : ∀ {x y : α}, toNat x = toNat y ↔ x = y)
    (x y : α) : compareOfLessAndEq x y = compare (toNat x) (toNat y) := by
  rw [compareOfLessAndEq, Nat.compare_eq_ite_lt]
  simp only [hlt, ← hinj]
  rcases Nat.lt_trichotomy (toNat x) (toNat y) with hless | heq | hmore
  · simp [hless]
  · simp [heq]
  · have hnot : ¬toNat x < toNat y := Nat.not_lt_of_gt hmore
    have hne : toNat x ≠ toNat y := Nat.ne_of_gt hmore
    simp [hmore, hnot, hne]

/-! ### Numerals -/

/-- **Numbers are written digit by digit**, the most significant first, and the digits compare as
their values. -/
structure IsPlaceNotation {α : Type} [Ord α] (base : Nat) (digit : Nat → α)
    (spell : Nat → Nat → List α) : Prop where
  base_pos : 0 < base
  spell_zero : ∀ n, spell 0 n = []
  spell_succ : ∀ width n, spell (width + 1) n = spell width (n / base) ++ [digit (n % base)]
  compare_digit : ∀ {d e : Nat}, d < base → e < base → compare (digit d) (digit e) = compare d e

namespace IsPlaceNotation

variable {α : Type} [Ord α] {base : Nat} {digit : Nat → α} {spell : Nat → Nat → List α}

theorem length_spell (h : IsPlaceNotation base digit spell) (width n : Nat) :
    (spell width n).length = width := by
  induction width generalizing n with
  | zero => rw [h.spell_zero, List.length_nil]
  | succ width ih => rw [h.spell_succ, List.length_append, ih, List.length_singleton]

/-- **Numerals of one width compare as their values**, up to what does not fit in the width. -/
theorem compareLex_eq (h : IsPlaceNotation base digit spell) (width m n : Nat) :
    List.compareLex compare (spell width m) (spell width n)
      = compare (m % Nat.pow base width) (n % Nat.pow base width) := by
  induction width generalizing m n with
  | zero =>
      have hmod : ∀ k, k % Nat.pow base 0 = 0 := Nat.mod_one
      rw [h.spell_zero, h.spell_zero, hmod, hmod]
      rfl
  | succ width ih =>
      have hlength : (spell width (m / base)).length = (spell width (n / base)).length := by
        rw [h.length_spell, h.length_spell]
      have hdigit := h.compare_digit (Nat.mod_lt m h.base_pos) (Nat.mod_lt n h.base_pos)
      have hpow : Nat.pow base (width + 1) = base * Nat.pow base width := Nat.mul_comm ..
      -- The last digit is the remainder, and the digits before it are those of the quotient.
      rw [h.spell_succ, h.spell_succ, compareLex_append _ hlength, compareLex_singleton, hdigit, ih,
        compare_div_mod base (m % Nat.pow base (width + 1)), hpow, Nat.mod_mul_right_div_self,
        Nat.mod_mul_right_div_self, Nat.mod_mul_right_mod, Nat.mod_mul_right_mod]

/-- Numbers that fit in the width compare as their numerals. -/
theorem compareLex_of_lt (h : IsPlaceNotation base digit spell) {width m n : Nat}
    (hm : m < Nat.pow base width) (hn : n < Nat.pow base width) :
    List.compareLex compare (spell width m) (spell width n) = compare m n := by
  rw [h.compareLex_eq, Nat.mod_eq_of_lt hm, Nat.mod_eq_of_lt hn]

end IsPlaceNotation

end Comparison

end SecurityDescriptor
