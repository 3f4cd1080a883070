/-
Words read as sets of flags: testing and putting one bit.

The flag words of a descriptor and of an entry are kept as the bits that were read, named or not, so
that writing them back changes nothing.  A named flag is a position in the word.

Main definitions:

* `Bits.put` — a word with one bit set or cleared.

Main results:

* `Bits.getLsbD_put` — **putting a bit changes that bit and no other**;
* `Bits.put_getLsbD` — putting a bit to the value it has changes nothing.
-/

set_option relaxedAutoImplicit false
set_option autoImplicit false

namespace SecurityDescriptor

namespace Bits

/-- The word `v` with bit `i` equal to `b`. -/
def put {w : Nat} (v : BitVec w) (i : Nat) (b : Bool) : BitVec w :=
  if b then v ||| BitVec.twoPow w i else v &&& ~~~ BitVec.twoPow w i

theorem getLsbD_put {w : Nat} (v : BitVec w) {i : Nat} (hi : i < w) (b : Bool) (j : Nat) :
    (put v i b).getLsbD j = if i = j then b else v.getLsbD j := by
  by_cases hij : i = j
  · subst hij
    cases b <;> simp [put, hi]
  · have hji : ¬j = i := Ne.symm hij
    cases b
    · by_cases hj : j < w
      · simp [put, hij, hji, hj]
      · simp [put, hij, hj, BitVec.getLsbD_of_ge v j (Nat.le_of_not_lt hj)]
    · simp [put, BitVec.getLsbD_twoPow, hij]

theorem put_getLsbD {w : Nat} (v : BitVec w) {i : Nat} (hi : i < w) :
    put v i (v.getLsbD i) = v := by
  apply BitVec.eq_of_getLsbD_eq
  intro j _
  rw [getLsbD_put v hi]
  split
  · rename_i h
    rw [h]
  · rfl

end Bits

end SecurityDescriptor
