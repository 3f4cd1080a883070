/-
**Identifiers are totally ordered, and numbers put behind them keep the order.**

Identifiers are compared by their authorities, then by the counts of their sub-authorities, and then
by the sub-authorities themselves, one after another.  Each of these three comparisons is an order,
and so is the comparison made of them; it finds no difference only between identifiers that are the
same, which are those with the same binary form.  Since the counts are compared before the
sub-authorities, two identifiers that get this far have equally many of them.  Putting one more
number behind each therefore changes nothing about a difference that is already there, and without
one the two numbers decide.

Main results:

* `Sid.compare_of_extends` — **identifiers with one more number each** compare as they did without,
  and then as the numbers;
* the instances of `Std.TransOrd` and `Std.LawfulEqOrd` — the laws of an order;
* `Sid.sort_eq_of_perm` — sorting forgets the order in which identifiers came;
* `Sid.compare_lawful` — the laws, together with those of appended numbers.
-/

import SecurityDescriptor.Proofs.Comparison
import SecurityDescriptor.Proofs.Sid.Binary
import SecurityDescriptor.Proofs.Sid.WellKnown

set_option relaxedAutoImplicit false
set_option autoImplicit false

namespace SecurityDescriptor

namespace Sid

/-! ### The laws of an order -/

/-- The three comparisons, one after another. -/
theorem compare_eq (a b : Sid) :
    compare a b = (compare a.authority b.authority).then ((compare a.count b.count).then
      (List.compareLex compare a.subAuthorities b.subAuthorities)) := rfl

/-- The comparison of the sub-authorities alone. -/
def compareSubAuthorities (a b : Sid) : Ordering :=
  List.compareLex compare a.subAuthorities b.subAuthorities

instance : Std.TransCmp compareSubAuthorities where
  eq_swap := by
    have hlists : Std.OrientedCmp (List.compareLex (compare : UInt32 → UInt32 → Ordering)) :=
      inferInstance
    intro a b
    exact hlists.eq_swap
  isLE_trans := by
    have hlists : Std.TransCmp (List.compareLex (compare : UInt32 → UInt32 → Ordering)) :=
      inferInstance
    intro a b c hab hbc
    exact hlists.isLE_trans hab hbc

instance : Std.TransOrd Sid :=
  inferInstanceAs (Std.TransCmp
    (compareLex (compareOn authority) (compareLex (compareOn count) compareSubAuthorities)))

instance : Std.LawfulEqOrd Sid where
  eq_of_compare {a b} h := by
    simp only [compare_eq, Ordering.then_eq_eq, Std.LawfulEqCmp.compare_eq_iff_eq] at h
    obtain ⟨hauthority, -, hsubs⟩ := h
    obtain ⟨authority, subs, hle, hcount⟩ := a
    obtain ⟨authority', subs', hle', hcount'⟩ := b
    obtain rfl : authority = authority' := hauthority
    obtain rfl : subs = subs' := hsubs
    rfl

/-- Of two identifiers one does not come behind the other. -/
theorem compare_total (a b : Sid) : (compare a b).isLE ∨ (compare b a).isLE := by
  rw [Std.OrientedOrd.eq_swap (a := b) (b := a)]
  cases compare a b with
  | lt => exact .inl rfl
  | eq => exact .inl rfl
  | gt => exact .inr rfl

/-- Identifiers that compare as equal are those with the same binary form. -/
theorem compare_eq_eq_iff_encode {a b : Sid} : compare a b = .eq ↔ a.encode = b.encode := by
  rw [Std.LawfulEqOrd.compare_eq_iff_eq]
  constructor
  · rintro rfl
    rfl
  · intro h
    exact eq_of_isPrefix (h ▸ List.prefix_rfl)

/-! ### Appended numbers -/

/-- There is room for one more number as long as there are fewer than may be. -/
theorem exists_append_iff {s : Sid} {rid : UInt32} :
    (∃ s', s.append rid = .ok s') ↔ s.count < maxCount := by
  simp only [append_eq_ok_iff]
  constructor
  · rintro ⟨s', -, hsubs⟩
    have hle := s'.count_le
    rw [hsubs, List.length_append, List.length_singleton] at hle
    exact hle
  · intro hlt
    have hle : (s.subAuthorities ++ [rid]).length ≤ maxCount := by
      rw [List.length_append, List.length_singleton]
      exact hlt
    exact ⟨⟨s.authority, s.subAuthorities ++ [rid], s.authority_le, hle⟩, rfl, rfl⟩

/-- **Identifiers with one more number each** compare as they did without, and then as the
numbers. -/
theorem compare_of_extends {a b a' b' : Sid} {x y : UInt32} (ha : a'.Extends a x)
    (hb : b'.Extends b y) : compare a' b' = (compare a b).then (compare x y) := by
  obtain ⟨hauthority, hsubs⟩ := ha
  obtain ⟨hauthority', hsubs'⟩ := hb
  have hcounts : compare a'.count b'.count = compare a.count b.count := by
    simp only [count, hsubs, hsubs', List.length_append, List.length_singleton,
      Nat.compare_eq_ite_lt, Nat.add_lt_add_iff_right]
  rw [compare_eq, compare_eq, hauthority, hauthority', hcounts, hsubs, hsubs',
    Ordering.then_assoc, Ordering.then_assoc]
  congr 1
  -- Only where the counts are the same does the comparison reach the sub-authorities.
  cases hcount : compare a.count b.count with
  | lt => rfl
  | gt => rfl
  | eq =>
      have hlength : a.subAuthorities.length = b.subAuthorities.length :=
        Nat.compare_eq_eq.mp hcount
      rw [Ordering.eq_then, Ordering.eq_then, Comparison.compareLex_append _ hlength,
        Comparison.compareLex_singleton]

/-! ### Sorting -/

/-- Sorted identifiers ascend. -/
theorem pairwise_sort (sids : List Sid) :
    (sort sids).Pairwise fun a b => (compare a b).isLE := by
  refine List.pairwise_mergeSort ?_ ?_ sids
  · intro a b c hab hbc
    exact Std.TransCmp.isLE_trans hab hbc
  · intro a b
    rw [Bool.or_eq_true]
    exact compare_total a b

/-- **Sorting forgets the order in which identifiers came.** -/
theorem sort_eq_of_perm {sids others : List Sid} (h : sids.Perm others) :
    sort sids = sort others := by
  have hperm : (sort sids).Perm (sort others) :=
    (List.mergeSort_perm sids _).trans (h.trans (List.mergeSort_perm others _).symm)
  refine hperm.eq_of_pairwise ?_ (pairwise_sort sids) (pairwise_sort others)
  intro a b _ _ hab hba
  exact Std.LawfulEqCmp.eq_of_compare (Std.OrientedCmp.isLE_antisymm hab hba)

/-! ### The order of identifiers -/

/-- **Identifiers are totally ordered, and appended numbers keep the order.**  Turning a comparison
round turns its outcome round, one of two identifiers is never behind the other, what is not behind
is so along chains, and two identifiers neither of which is behind the other are the same: those that
compare as equal are the same, which they are if they have the same binary form.  One more number
can be appended as long as there is room for it.  Appending any numbers to two identifiers that
differ leaves the lesser one the lesser, and different numbers behind one identifier compare as the
numbers. -/
theorem compare_lawful :
    (∀ a b : Sid, compare b a = (compare a b).swap)
    ∧ (∀ a b : Sid, (compare a b).isLE ∨ (compare b a).isLE)
    ∧ (∀ a b c : Sid, (compare a b).isLE → (compare b c).isLE → (compare a c).isLE)
    ∧ (∀ a b : Sid, (compare a b).isLE → (compare b a).isLE → a = b)
    ∧ (∀ a b : Sid, (compare a b = .eq ↔ a = b) ∧ (compare a b = .eq ↔ a.encode = b.encode))
    ∧ (∀ (a : Sid) (x : UInt32), (∃ a', a.append x = .ok a') ↔ a.count < maxCount)
    ∧ (∀ (a b a' b' : Sid) (x y : UInt32), a.append x = .ok a' → b.append y = .ok b' →
        compare a b = .lt → compare a' b' = .lt)
    ∧ (∀ (a a' a'' : Sid) (x y : UInt32), a.append x = .ok a' → a.append y = .ok a'' →
        compare a' a'' = compare x y) := by
  refine ⟨fun _ _ => Std.OrientedOrd.eq_swap, compare_total, ?_, ?_, ?_, ?_, ?_, ?_⟩
  · intro a b c hab hbc
    exact Std.TransOrd.isLE_trans hab hbc
  · intro a b hab hba
    exact Std.LawfulEqOrd.eq_of_compare (Std.OrientedCmp.isLE_antisymm hab hba)
  · intro a b
    exact ⟨Std.LawfulEqOrd.compare_eq_iff_eq, compare_eq_eq_iff_encode⟩
  · intro a x
    exact exists_append_iff
  · intro a b a' b' x y ha hb hlt
    rw [compare_of_extends (append_eq_ok_iff.mp ha) (append_eq_ok_iff.mp hb), hlt,
      Ordering.lt_then]
  · intro a a' a'' x y ha ha'
    rw [compare_of_extends (append_eq_ok_iff.mp ha) (append_eq_ok_iff.mp ha'),
      Std.ReflOrd.compare_self, Ordering.eq_then]

/-- `S-1-5-9` is less than `S-1-5-0-0`, which has more sub-authorities, and stays so with the
greatest number behind it and the least behind the other. -/
theorem compare_lawful_countFirst :
    let a : Sid := { authority := 5, subAuthorities := [9] }
    let b : Sid := { authority := 5, subAuthorities := [0, 0] }
    let a' : Sid := { authority := 5, subAuthorities := [9, 0xFFFFFFFF] }
    let a'' : Sid := { authority := 5, subAuthorities := [9, 7] }
    let b' : Sid := { authority := 5, subAuthorities := [0, 0, 0] }
    let c : Sid := ⟨5, [9], by decide, by decide⟩
    a.append 0xFFFFFFFF = .ok a' ∧ a.append 7 = .ok a'' ∧ b.append 0 = .ok b' ∧
      compare a b = .lt ∧ compare a' b' = .lt ∧ compare a' a'' = .gt ∧
      (compare a b').isLE ∧ a = c := by
  intro a b a' a'' b' c
  obtain ⟨-, -, htrans, hantisymm, -, -, hless, hnumbers⟩ := compare_lawful
  have ha : a.append 0xFFFFFFFF = .ok a' := by rfl
  have ha' : a.append 7 = .ok a'' := by rfl
  have hb : b.append 0 = .ok b' := by rfl
  have hlt : compare a b = .lt := by decide
  refine ⟨ha, ha', hb, hlt, hless a b a' b' _ _ ha hb hlt, ?_, ?_, ?_⟩
  · rw [hnumbers a a' a'' _ _ ha ha']
    decide
  · exact htrans a b b' (by decide) (by decide)
  · exact hantisymm a c (by decide) (by decide)

end Sid

end SecurityDescriptor
