/-
Security identifiers: an authority of 48 bits and at most fifteen sub-authorities of 32 bits.

The two limits are part of the type, so every identifier has a binary form and a text form.

Main definitions:

* `Sid`, `Sid.make` — the type, and the identifier with given parts if they are within the limits;
* `Sid.append` — an identifier with one more sub-authority;
* `Sid.rid`, `Sid.isAccountDomain` — the last sub-authority; the identifiers `S-1-5-21-a-b-c`;
* `Sid.size` — the number of bytes of the binary form;
* `Sid.sort` — identifiers in order of authority, then count, then sub-authorities.

Main results:

* `Sid.make_eq_ok_iff` — **an identifier can be made exactly from the parts that some identifier
  has**;
* `Sid.size_le` — an identifier takes at most `Sid.maxSize` bytes.
-/

import SecurityDescriptor.Error

set_option relaxedAutoImplicit false
set_option autoImplicit false

namespace SecurityDescriptor

namespace Sid

/-- The greatest authority: six bytes. -/
def maxAuthority : Nat := 0xFFFFFFFFFFFF

/-- The greatest number of sub-authorities. -/
def maxCount : Nat := 15

/-- The number of bytes of an identifier without sub-authorities. -/
def minSize : Nat := 8

/-- The number of bytes of an identifier with as many sub-authorities as there may be. -/
def maxSize : Nat := minSize + 4 * maxCount

/-- The revision of all identifiers. -/
def revision : UInt8 := 1

end Sid

/-- A security identifier. -/
structure Sid where
  authority : Nat
  subAuthorities : List UInt32
  authority_le : authority ≤ Sid.maxAuthority := by decide
  count_le : subAuthorities.length ≤ Sid.maxCount := by decide
  deriving DecidableEq, Repr

namespace Sid

/-- The identifier with the given parts.  An authority that is too great is reported before a count
that is. -/
def make (authority : Nat) (subAuthorities : List UInt32) : Except Error Sid :=
  if ha : authority ≤ maxAuthority then
    if hc : subAuthorities.length ≤ maxCount then
      .ok ⟨authority, subAuthorities, ha, hc⟩
    else
      .error (.outOfRange .subAuthorityCount subAuthorities.length maxCount)
  else
    .error (.outOfRange .authority authority maxAuthority)

/-- **An identifier can be made exactly from the parts that some identifier has.** -/
theorem make_eq_ok_iff {authority : Nat} {subAuthorities : List UInt32} {s : Sid} :
    make authority subAuthorities = .ok s
      ↔ s.authority = authority ∧ s.subAuthorities = subAuthorities := by
  constructor
  · intro h
    unfold make at h
    split at h
    · split at h
      · cases h
        exact ⟨rfl, rfl⟩
      · cases h
    · cases h
  · rintro ⟨rfl, rfl⟩
    simp [make, s.authority_le, s.count_le]

@[simp] theorem make_parts (s : Sid) : make s.authority s.subAuthorities = .ok s :=
  make_eq_ok_iff.mpr ⟨rfl, rfl⟩

/-- The number of sub-authorities. -/
def count (s : Sid) : Nat := s.subAuthorities.length

/-- The relative identifier: the last sub-authority. -/
def rid (s : Sid) : Option UInt32 := s.subAuthorities.getLast?

/-- The identifier with one more sub-authority at its end. -/
def append (s : Sid) (rid : UInt32) : Except Error Sid :=
  make s.authority (s.subAuthorities ++ [rid])

/-- The authority under which account domains and most principals are numbered. -/
def ntAuthority : Nat := 5

/-- Whether the identifier is that of an account domain, `S-1-5-21-a-b-c`. -/
def isAccountDomain (s : Sid) : Bool :=
  s.authority == ntAuthority && s.count == 4 && s.subAuthorities.head? == some 21

/-- The number of bytes of the binary form. -/
def size (s : Sid) : Nat := minSize + 4 * s.count

theorem size_le (s : Sid) : s.size ≤ maxSize := by
  have h := s.count_le
  unfold size maxSize count
  omega

/-! ### Order -/

instance : Ord Sid where
  compare a b :=
    (compare a.authority b.authority).then <| (compare a.count b.count).then <|
      List.compareLex compare a.subAuthorities b.subAuthorities

/-- The identifiers in ascending order. -/
def sort (sids : List Sid) : List Sid := sids.mergeSort fun a b => (compare a b).isLE

end Sid

end SecurityDescriptor
