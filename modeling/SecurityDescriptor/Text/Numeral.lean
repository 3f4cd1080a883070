/-
Numerals: writing and reading natural numbers in base ten and base sixteen.

Digits are ASCII digits and, in base sixteen, the letters `a` to `f` in either case.  Reading takes
a limit: a numeral above it is refused, and no numeral is refused for having many leading zeros.

Main definitions:

* `Numeral.digitValue?` — the value of a digit in a base;
* `Numeral.decimal`, `Numeral.hex` — a number without leading zeros;
* `Numeral.fixedHex` — a number with a fixed count of hexadecimal digits;
* `Numeral.read?` — the value of a numeral, if it has a digit, only digits, and stays within a
  limit.

Main results:

* `Numeral.length_fixedHex` — a fixed-width numeral has its width;
* `Numeral.hexDigitValue?_digitChar` — **a digit that was written is read back**;
* `Numeral.read?_nil` — an empty text is no numeral.
-/

set_option relaxedAutoImplicit false
set_option autoImplicit false

namespace SecurityDescriptor

namespace Numeral

/-! ### Writing -/

/-- The decimal numeral of `n`. -/
def decimal (n : Nat) : List Char := Nat.toDigits 10 n

/-- The hexadecimal numeral of `n`, in lower case. -/
def hex (n : Nat) : List Char := Nat.toDigits 16 n

/-- The last `width` hexadecimal digits of `n`, in lower case, with leading zeros. -/
def fixedHex : Nat → Nat → List Char
  | 0, _ => []
  | width + 1, n => fixedHex width (n / 16) ++ [Nat.digitChar (n % 16)]

@[simp] theorem length_fixedHex (width n : Nat) : (fixedHex width n).length = width := by
  induction width generalizing n with
  | zero => rfl
  | succ width ih => simp only [fixedHex, List.length_append, ih, List.length_cons, List.length_nil]

/-! ### Reading -/

/-- The value of a hexadecimal digit in either case. -/
def hexDigitValue? (c : Char) : Option Nat :=
  if '0' ≤ c ∧ c ≤ '9' then some (c.toNat - '0'.toNat)
  else if 'a' ≤ c ∧ c ≤ 'f' then some (c.toNat - 'a'.toNat + 10)
  else if 'A' ≤ c ∧ c ≤ 'F' then some (c.toNat - 'A'.toNat + 10)
  else none

/-- **A digit that was written is read back.** -/
theorem hexDigitValue?_digitChar {d : Nat} (h : d < 16) :
    hexDigitValue? (Nat.digitChar d) = some d := by
  have hall : ∀ e ∈ List.range 16, hexDigitValue? (Nat.digitChar e) = some e := by decide
  exact hall d (List.mem_range.mpr h)

/-- The value of a digit in the given base. -/
def digitValue? (base : Nat) (c : Char) : Option Nat :=
  (hexDigitValue? c).filter (· < base)

/-- One more digit behind a numeral of value `n`; refused if the value passes the limit. -/
def extend? (base limit n : Nat) (c : Char) : Option Nat :=
  (digitValue? base c).bind fun d =>
    let n' := n * base + d
    if n' ≤ limit then some n' else none

/-- The value of a numeral of one or more digits, if it is at most `limit`. -/
def read? (base limit : Nat) (text : List Char) : Option Nat :=
  if text = [] then none else text.foldlM (extend? base limit) 0

@[simp] theorem read?_nil (base limit : Nat) : read? base limit [] = none := rfl

end Numeral

end SecurityDescriptor
