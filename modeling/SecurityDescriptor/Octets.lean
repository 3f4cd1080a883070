/-
Byte strings: numbers of fixed width, cutting a byte string in two, and overwriting part of one.

Every binary form of this library is a sequence of bytes, fixed-width little-endian numbers and, in
one place, a big-endian number.  A reader takes a piece off the front and keeps the rest, so a
reader never looks past the bytes it was given.

Main definitions:

* `Octets.little`, `Octets.littleValue` — a number as `width` bytes, least significant first, and
  back;
* `Octets.big`, `Octets.bigValue` — the same with the most significant byte first;
* `Octets.split?` — the first `n` bytes and the rest, if there are that many;
* `Octets.word?` — the number at the front of a byte string, and the rest;
* `Octets.overwrite` — a byte string with a window of it replaced.

Main results:

* `Octets.split?_eq_some_iff` — **a byte string is cut exactly where it is the two parts joined**;
* `Octets.littleValue_little`, `Octets.little_littleValue` — numbers below `256 ^ width` and strings
  of `width` bytes are the same thing;
* `Octets.word?_little_append` — a number that was written is read back, and the rest with it;
* `Octets.drop_big` — the last bytes of a number in more bytes are its bytes in fewer;
* `Octets.overwrite_append`, `Octets.take_drop_overwrite`, `Octets.getElem?_overwrite` — overwriting
  replaces the window and nothing else.
-/

set_option relaxedAutoImplicit false
set_option autoImplicit false

namespace SecurityDescriptor

namespace Octets

/-! ### Numbers of fixed width -/

/-- The `width` bytes of `n`, least significant first; what does not fit is dropped. -/
def little : Nat → Nat → List UInt8
  | 0, _ => []
  | width + 1, n => UInt8.ofNat n :: little width (n / 256)

/-- The number whose bytes are given, least significant first. -/
def littleValue : List UInt8 → Nat
  | [] => 0
  | b :: bs => b.toNat + 256 * littleValue bs

/-- The `width` bytes of `n`, most significant first. -/
def big (width n : Nat) : List UInt8 := (little width n).reverse

/-- The number whose bytes are given, most significant first. -/
def bigValue (bytes : List UInt8) : Nat := littleValue bytes.reverse

@[simp] theorem length_little (width n : Nat) : (little width n).length = width := by
  induction width generalizing n with
  | zero => rfl
  | succ width ih => simp only [little, List.length_cons, ih]

@[simp] theorem length_big (width n : Nat) : (big width n).length = width := by
  simp only [big, List.length_reverse, length_little]

theorem littleValue_lt (bytes : List UInt8) : littleValue bytes < Nat.pow 256 bytes.length := by
  induction bytes with
  | nil => decide
  | cons b bs ih =>
    have hb : b.toNat < 256 := b.toNat_lt
    have hpow : Nat.pow 256 (bs.length + 1) = Nat.pow 256 bs.length * 256 := rfl
    rw [littleValue, List.length_cons, hpow]
    omega

theorem littleValue_little (width n : Nat) :
    littleValue (little width n) = n % Nat.pow 256 width := by
  induction width generalizing n with
  | zero => exact (Nat.mod_one n).symm
  | succ width ih =>
    have h : (UInt8.ofNat n).toNat = n % 256 := UInt8.toNat_ofNat'
    have hpow : Nat.pow 256 (width + 1) = 256 * Nat.pow 256 width := Nat.mul_comm ..
    rw [little, littleValue, ih, h, hpow, Nat.mod_mul]

theorem littleValue_little_of_lt {width n : Nat} (h : n < Nat.pow 256 width) :
    littleValue (little width n) = n := by
  rw [littleValue_little, Nat.mod_eq_of_lt h]

theorem littleValue_append (a b : List UInt8) :
    littleValue (a ++ b) = littleValue a + Nat.pow 256 a.length * littleValue b := by
  induction a with
  | nil => simp [littleValue]
  | cons x a ih =>
    have hpow : Nat.pow 256 (a.length + 1) = 256 * Nat.pow 256 a.length := Nat.mul_comm ..
    rw [List.cons_append, littleValue, littleValue, ih, List.length_cons, hpow, Nat.mul_add,
      Nat.add_assoc, Nat.mul_assoc]

/-- **A byte string is the number it spells**: writing that number gives the bytes back. -/
theorem little_littleValue (bytes : List UInt8) :
    little bytes.length (littleValue bytes) = bytes := by
  induction bytes with
  | nil => rfl
  | cons b bs ih =>
    have hb : b.toNat < 256 := b.toNat_lt
    have hq : (b.toNat + 256 * littleValue bs) / 256 = littleValue bs := by omega
    have hr : UInt8.ofNat (b.toNat + 256 * littleValue bs) = b := by
      apply UInt8.toNat_inj.mp
      rw [UInt8.toNat_ofNat']
      omega
    simp only [List.length_cons, littleValue, little, hq, hr, ih]

theorem take_little (width more n : Nat) :
    (little (width + more) n).take width = little width n := by
  induction width generalizing n with
  | zero => simp [little]
  | succ width ih =>
      have hwidth : width + 1 + more = width + more + 1 := by omega
      rw [hwidth, little, little, List.take_succ_cons, ih]

/-- The last bytes of a number in more bytes are its bytes in fewer. -/
theorem drop_big (more width n : Nat) : (big (width + more) n).drop more = big width n := by
  rw [big, List.drop_reverse, length_little, Nat.add_sub_cancel, take_little, big]

theorem bigValue_lt (bytes : List UInt8) : bigValue bytes < Nat.pow 256 bytes.length := by
  simpa only [bigValue, List.length_reverse] using littleValue_lt bytes.reverse

theorem bigValue_append (a b : List UInt8) :
    bigValue (a ++ b) = bigValue a * Nat.pow 256 b.length + bigValue b := by
  simp only [bigValue]
  rw [List.reverse_append, littleValue_append, List.length_reverse, Nat.add_comm, Nat.mul_comm]

theorem bigValue_cons (b : UInt8) (bytes : List UInt8) :
    bigValue (b :: bytes) = b.toNat * Nat.pow 256 bytes.length + bigValue bytes :=
  bigValue_append [b] bytes

theorem bigValue_big_of_lt {width n : Nat} (h : n < Nat.pow 256 width) :
    bigValue (big width n) = n := by
  rw [bigValue, big, List.reverse_reverse, littleValue_little_of_lt h]

theorem big_bigValue (bytes : List UInt8) : big bytes.length (bigValue bytes) = bytes := by
  have h := little_littleValue bytes.reverse
  rw [List.length_reverse] at h
  rw [big, bigValue, h, List.reverse_reverse]

theorem little_bigValue (bytes : List UInt8) :
    little bytes.length (bigValue bytes) = bytes.reverse := by
  rw [bigValue, ← List.length_reverse, little_littleValue]

/-! ### Cutting -/

/-- The first `n` bytes and what follows them; `none` if there are fewer than `n`.  The length of
the whole string is not measured, so a cut costs only what it takes. -/
def split? (n : Nat) (bytes : List UInt8) : Option (List UInt8 × List UInt8) :=
  let front := bytes.take n
  if front.length = n then some (front, bytes.drop n) else none

theorem split?_eq_some_iff {n : Nat} {bytes front rest : List UInt8} :
    split? n bytes = some (front, rest) ↔ bytes = front ++ rest ∧ front.length = n := by
  simp only [split?, Option.ite_none_right_eq_some, Option.some.injEq, Prod.mk.injEq]
  constructor
  · rintro ⟨h, rfl, rfl⟩
    exact ⟨(List.take_append_drop n bytes).symm, h⟩
  · rintro ⟨rfl, rfl⟩
    simp

@[simp] theorem split?_append {n : Nat} {front : List UInt8} (rest : List UInt8)
    (h : front.length = n) : split? n (front ++ rest) = some (front, rest) :=
  split?_eq_some_iff.mpr ⟨rfl, h⟩

theorem split?_eq_none_iff {n : Nat} {bytes : List UInt8} :
    split? n bytes = none ↔ bytes.length < n := by
  simp only [split?, ite_eq_right_iff, reduceCtorEq, imp_false, List.length_take]
  omega

/-- A cut that begins with a known piece goes on behind it. -/
theorem split?_add_append {front : List UInt8} {m : Nat} (hm : front.length = m) (n : Nat)
    (bytes : List UInt8) :
    split? (m + n) (front ++ bytes) = (split? n bytes).map fun cut => (front ++ cut.1, cut.2) := by
  subst hm
  cases hcut : split? n bytes with
  | none =>
      have hshort := split?_eq_none_iff.mp hcut
      refine split?_eq_none_iff.mpr ?_
      rw [List.length_append]
      omega
  | some cut =>
      obtain ⟨piece, rest⟩ := cut
      obtain ⟨rfl, rfl⟩ := split?_eq_some_iff.mp hcut
      rw [← List.append_assoc]
      exact split?_append rest (List.length_append ..)

/-- Behind a piece that is cut out of the bytes stands what the cut leaves over. -/
theorem drop_of_split? {bytes front rest : List UInt8} {start n : Nat} (hn : 0 < n)
    (h : split? n (bytes.drop start) = some (front, rest)) :
    start + n ≤ bytes.length ∧ bytes.drop (start + n) = rest := by
  obtain ⟨hcut, hlength⟩ := split?_eq_some_iff.mp h
  have hle := congrArg List.length hcut
  rw [List.length_drop, List.length_append] at hle
  refine ⟨by omega, ?_⟩
  rw [← List.drop_drop, hcut, List.drop_left' hlength]

/-- The bytes up to the end of a piece end with the piece. -/
theorem take_of_split? {bytes front rest : List UInt8} {start n : Nat} (hstart : start ≤ bytes.length)
    (h : split? n (bytes.drop start) = some (front, rest)) :
    start + n ≤ bytes.length ∧ (bytes.take (start + n)).length = start + n ∧
      (bytes.take (start + n)).drop start = front := by
  obtain ⟨hcut, hlength⟩ := split?_eq_some_iff.mp h
  have hle := congrArg List.length hcut
  rw [List.length_drop, List.length_append] at hle
  refine ⟨by omega, List.length_take_of_le (by omega), ?_⟩
  rw [List.drop_take, hcut, Nat.add_sub_cancel_left, List.take_left' hlength]

/-- The number in the first `width` bytes, least significant byte first, and what follows. -/
def word? (width : Nat) (bytes : List UInt8) : Option (Nat × List UInt8) :=
  (split? width bytes).map fun (front, rest) => (littleValue front, rest)

@[simp] theorem word?_little_append (width n : Nat) (rest : List UInt8) :
    word? width (little width n ++ rest) = some (n % Nat.pow 256 width, rest) := by
  simp [word?, littleValue_little]

theorem word?_eq_some_iff {width n : Nat} {bytes rest : List UInt8} :
    word? width bytes = some (n, rest)
      ↔ n < Nat.pow 256 width ∧ bytes = little width n ++ rest := by
  simp only [word?, Option.map_eq_some_iff, Prod.exists, split?_eq_some_iff, Prod.mk.injEq]
  constructor
  · rintro ⟨front, rest', ⟨rfl, rfl⟩, rfl, rfl⟩
    exact ⟨littleValue_lt front, by rw [little_littleValue]⟩
  · rintro ⟨h, rfl⟩
    exact ⟨little width n, rest, ⟨rfl, length_little width n⟩, littleValue_little_of_lt h, rfl⟩

theorem word?_eq_none_iff {width : Nat} {bytes : List UInt8} :
    word? width bytes = none ↔ bytes.length < width := by
  simp only [word?, Option.map_eq_none_iff, split?_eq_none_iff]

theorem exists_word? {width : Nat} {bytes : List UInt8} (h : width ≤ bytes.length) :
    ∃ n rest, word? width bytes = some (n, rest) ∧ bytes.length = width + rest.length := by
  cases hread : word? width bytes with
  | none => exact absurd (word?_eq_none_iff.mp hread) (Nat.not_lt.mpr h)
  | some read =>
      obtain ⟨n, rest⟩ := read
      have hlength := congrArg List.length (word?_eq_some_iff.mp hread).2
      rw [List.length_append, length_little] at hlength
      exact ⟨n, rest, rfl, hlength⟩

theorem drop_of_word? {bytes rest : List UInt8} {start width n : Nat} (hwidth : 0 < width)
    (h : word? width (bytes.drop start) = some (n, rest)) :
    start + width ≤ bytes.length ∧ bytes.drop (start + width) = rest := by
  obtain ⟨⟨front, rest'⟩, hcut, hpair⟩ := Option.map_eq_some_iff.mp h
  cases hpair
  exact drop_of_split? hwidth hcut

/-! ### Overwriting -/

/-- `bytes` with the window that starts at `offset` replaced by `piece`. -/
def overwrite (bytes : List UInt8) (offset : Nat) (piece : List UInt8) : List UInt8 :=
  bytes.take offset ++ piece ++ bytes.drop (offset + piece.length)

/-- Overwriting a window that lies inside the bytes keeps their number. -/
theorem length_overwrite {bytes piece : List UInt8} {offset : Nat}
    (h : offset + piece.length ≤ bytes.length) :
    (overwrite bytes offset piece).length = bytes.length := by
  simp only [overwrite, List.length_append, List.length_take, List.length_drop]
  omega

/-- A window that stands behind `front` is replaced where it stands. -/
theorem overwrite_append {front window rest piece : List UInt8} {offset : Nat}
    (hfront : front.length = offset) (hwindow : window.length = piece.length) :
    overwrite (front ++ (window ++ rest)) offset piece = front ++ (piece ++ rest) := by
  subst hfront
  have hrest : (window ++ rest).drop piece.length = rest := List.drop_left' hwindow
  rw [overwrite, List.take_left, ← List.drop_drop, List.drop_left, hrest, List.append_assoc]

/-- In the window stands the piece. -/
theorem take_drop_overwrite {bytes piece : List UInt8} {offset : Nat} (h : offset ≤ bytes.length) :
    ((overwrite bytes offset piece).drop offset).take piece.length = piece := by
  rw [overwrite, List.append_assoc, List.drop_left' (List.length_take_of_le h), List.take_left]

/-- The bytes outside the window stay as they were. -/
theorem getElem?_overwrite {bytes piece : List UInt8} {offset i : Nat}
    (h : offset + piece.length ≤ bytes.length) (hi : i < offset ∨ offset + piece.length ≤ i) :
    (overwrite bytes offset piece)[i]? = bytes[i]? := by
  have htake : (bytes.take offset).length = offset := List.length_take_of_le (by omega)
  rw [overwrite, List.append_assoc]
  rcases hi with hleft | hright
  · rw [List.getElem?_append_left (by omega), List.getElem?_take_of_lt hleft]
  · have hindex : offset + piece.length + (i - offset - piece.length) = i := by omega
    rw [List.getElem?_append_right (by omega), htake, List.getElem?_append_right (by omega),
      List.getElem?_drop, hindex]

end Octets

end SecurityDescriptor
