/-
**The text of a GUID is read back.**

A GUID is written in five groups of hexadecimal digits with a hyphen between two of them.  All its
characters take one byte, so its columns are its characters, every hyphen stands where the reader
looks for it, and each group is read for the field that was written.

Main definitions:

* `Guid.joinGroups` — five groups with hyphens between them.

Main results:

* `Guid.parse_render` — **a GUID is read back from its text**;
* `Guid.isPlain_render` — what is written is plain.
-/

import SecurityDescriptor.Guid
import SecurityDescriptor.Proofs.Outcome
import SecurityDescriptor.Proofs.Text.Plain

set_option relaxedAutoImplicit false
set_option autoImplicit false

namespace SecurityDescriptor

namespace Guid

theorem isPlain_render (g : Guid) : Text.IsPlain g.render := by
  have hgroup : ∀ width n, Text.IsPlain (Numeral.fixedHex width n) :=
    fun width n => (Numeral.isWord_fixedHex width n).isPlain
  simp only [render, Text.isPlain_append, Text.isPlain_cons, hgroup, and_true, true_and]
  decide

/-- The text of a GUID is never empty. -/
theorem render_ne_nil (g : Guid) : g.render ≠ [] := by
  intro h
  have hmem : '-' ∈ g.render := List.mem_append_right _ (List.mem_cons_self ..)
  rw [h] at hmem
  exact List.not_mem_nil hmem

/-! ### The five groups -/

/-- Five groups with hyphens between them. -/
def joinGroups (a b c d e : List Char) : List Char :=
  a ++ '-' :: (b ++ '-' :: (c ++ '-' :: (d ++ '-' :: e)))

theorem render_eq_joinGroups (g : Guid) :
    g.render = joinGroups (Numeral.fixedHex 8 g.data1.toNat) (Numeral.fixedHex 4 g.data2.toNat)
      (Numeral.fixedHex 4 g.data3.toNat) (Numeral.fixedHex 4 (g.data4.toNat / 0x1000000000000))
      (Numeral.fixedHex 12 g.data4.toNat) := rfl

section Groups

variable {a b c d e : List Char}

/-- Groups of the right lengths have the shape of a GUID. -/
theorem hasShape_joinGroups (ha : a.length = 8) (hb : b.length = 4) (hc : c.length = 4)
    (hd : d.length = 4) (he : e.length = 12) (h : Text.IsPlain (joinGroups a b c d e)) :
    hasShape (joinGroups a b c d e) = true := by
  rw [hasShape, h.columns_eq]
  simp [joinGroups, hyphenColumns, List.getElem?_append, ha, hb, hc, hd, he]

/-- The groups stand where the reader looks for them. -/
theorem slices_joinGroups (ha : a.length = 8) (hb : b.length = 4) (hc : c.length = 4)
    (hd : d.length = 4) (he : e.length = 12) :
    ((joinGroups a b c d e).drop 0).take 8 = a ∧
    ((joinGroups a b c d e).drop 9).take 4 = b ∧
    ((joinGroups a b c d e).drop 14).take 4 = c ∧
    ((joinGroups a b c d e).drop 19).take 4 = d ∧
    ((joinGroups a b c d e).drop 24).take 12 = e := by
  have hdrop : ∀ {text : List Char} {n : Nat}, text.length ≤ n → text.drop n = [] :=
    fun h => List.drop_of_length_le h
  refine ⟨?_, ?_, ?_, ?_, ?_⟩ <;>
    simp [joinGroups, List.drop_append, List.take_of_length_le, hdrop, ha, hb, hc, hd, he]

end Groups

theorem parseGroup_eq_ok {columns digits : List Char} {start count n : Nat}
    (hslice : (columns.drop start).take count = digits)
    (hread : Numeral.read? 16 (Nat.pow 16 count - 1) digits = some n) :
    parseGroup columns start count = .ok n := by
  rw [parseGroup, hslice, hread]

/-! ### Reading what was written -/

/-- **A GUID is read back from its text.** -/
theorem parse_render (g : Guid) : parse g.render = .ok g := by
  have hread : ∀ {width : Nat} (n : Nat), 0 < width →
      Numeral.read? 16 (Nat.pow 16 width - 1) (Numeral.fixedHex width n)
        = some (n % Nat.pow 16 width) :=
    fun n hwidth => Numeral.read?_fixedHex_mod hwidth n
  obtain ⟨h1, h2, h3, h4, h5⟩ := slices_joinGroups
    (Numeral.length_fixedHex 8 g.data1.toNat) (Numeral.length_fixedHex 4 g.data2.toNat)
    (Numeral.length_fixedHex 4 g.data3.toNat)
    (Numeral.length_fixedHex 4 (g.data4.toNat / 0x1000000000000))
    (Numeral.length_fixedHex 12 g.data4.toNat)
  rw [← g.render_eq_joinGroups] at h1 h2 h3 h4 h5
  have hshape : hasShape g.render = true :=
    hasShape_joinGroups (Numeral.length_fixedHex ..) (Numeral.length_fixedHex ..)
      (Numeral.length_fixedHex ..) (Numeral.length_fixedHex ..) (Numeral.length_fixedHex ..)
      g.isPlain_render
  have hcolumns : Text.columns g.render = g.render := g.isPlain_render.columns_eq
  rw [parse, if_pos hshape, hcolumns]
  dsimp only
  rw [parseGroup_eq_ok h1 (hread _ (by decide)), Outcome.ok_bind,
    parseGroup_eq_ok h2 (hread _ (by decide)), Outcome.ok_bind,
    parseGroup_eq_ok h3 (hread _ (by decide)), Outcome.ok_bind,
    parseGroup_eq_ok h4 (hread _ (by decide)), Outcome.ok_bind,
    parseGroup_eq_ok h5 (hread _ (by decide)), Outcome.ok_bind]
  have hdata1 : g.data1.toNat % Nat.pow 16 8 = g.data1.toNat := Nat.mod_eq_of_lt g.data1.toNat_lt
  have hdata2 : g.data2.toNat % Nat.pow 16 4 = g.data2.toNat := Nat.mod_eq_of_lt g.data2.toNat_lt
  have hdata3 : g.data3.toNat % Nat.pow 16 4 = g.data3.toNat := Nat.mod_eq_of_lt g.data3.toNat_lt
  -- The last field is written in two groups, its upper 16 bits before its lower 48.
  have hdata4 : g.data4.toNat / 0x1000000000000 % Nat.pow 16 4 * 0x1000000000000
      + g.data4.toNat % Nat.pow 16 12 = g.data4.toNat := by
    have hlt := g.data4.toNat_lt
    have hhigh : Nat.pow 16 4 = 0x10000 := rfl
    have hlow : Nat.pow 16 12 = 0x1000000000000 := rfl
    rw [hhigh, hlow]
    omega
  rw [hdata1, hdata2, hdata3, hdata4, UInt32.ofNat_toNat, UInt16.ofNat_toNat, UInt16.ofNat_toNat,
    UInt64.ofNat_toNat]
  rfl

end Guid

end SecurityDescriptor
