/-
**Well-known identifiers, from kind to identifier and back.**

The registry is read in both directions.  From an identifier it leads to the kinds whose fixed
identifier this is, and where there are several, to the one with the least code, because the rows
stand in the order of their codes.  From a kind it leads to an identifier, which for some kinds is
that of an account domain with one more number behind it.  Such an identifier tells the domain and
the kind that it was made from, since no two kinds have the same number, and it is never mistaken for
a fixed one, since it is longer than all of them.

Main definitions:

* `Sid.IsDomain`, `Sid.Extends` — the identifiers of account domains, and an identifier with one more
  number behind it;
* `WellKnown.IsFixed` — the kinds with the same identifier everywhere;
* `WellKnown.logonIds` — the kind of the identifiers of logon sessions.

Main results:

* `Sid.isWellKnown_iff` — **an identifier is of a kind exactly if the kind leads to it**, whatever
  domain is given;
* `Sid.wellKnown?_eq_some_iff` — of several kinds the one with the least code is found;
* `WellKnown.exists_toSid` — a kind in a domain always has an identifier;
* `WellKnown.toSid_inj` — **an identifier in a domain tells its domain and its kind**;
* `WellKnown.toSid_wellKnown` — both directions together.
-/

import Mathlib.Data.List.Nodup
import SecurityDescriptor.Sid.WellKnown

set_option relaxedAutoImplicit false
set_option autoImplicit false

namespace SecurityDescriptor

/-! ### Account domains -/

namespace Sid

/-- **The identifier of an account domain**, `S-1-5-21-a-b-c`. -/
def IsDomain (s : Sid) : Prop := s.authority = 5 ∧ ∃ a b c, s.subAuthorities = [21, a, b, c]

/-- The identifier is that of `domain` with `rid` behind it. -/
def Extends (s domain : Sid) (rid : UInt32) : Prop :=
  s.authority = domain.authority ∧ s.subAuthorities = domain.subAuthorities ++ [rid]

theorem isAccountDomain_iff {s : Sid} : s.isAccountDomain = true ↔ s.IsDomain := by
  simp only [isAccountDomain, IsDomain, ntAuthority, count, Bool.and_eq_true, beq_iff_eq, and_assoc]
  refine and_congr_right fun _ => ?_
  constructor
  · rintro ⟨hlength, hhead⟩
    obtain ⟨first, a, b, c, hsubs⟩ := List.length_eq_four.mp hlength
    rw [hsubs] at hhead
    cases hhead
    exact ⟨a, b, c, hsubs⟩
  · rintro ⟨a, b, c, hsubs⟩
    rw [hsubs]
    exact ⟨rfl, rfl⟩

theorem append_eq_ok_iff {s domain : Sid} {rid : UInt32} :
    domain.append rid = .ok s ↔ s.Extends domain rid := make_eq_ok_iff

/-- There is room for one more number behind the identifier of a domain. -/
theorem IsDomain.exists_extends {domain : Sid} (h : domain.IsDomain) (rid : UInt32) :
    ∃ s : Sid, s.Extends domain rid := by
  obtain ⟨-, a, b, c, hsubs⟩ := h
  have hcount : (domain.subAuthorities ++ [rid]).length ≤ maxCount := by
    simp [hsubs, maxCount]
  exact ⟨⟨domain.authority, domain.subAuthorities ++ [rid], domain.authority_le, hcount⟩, rfl, rfl⟩

theorem Extends.inj {s domain other : Sid} {rid number : UInt32} (h : s.Extends domain rid)
    (h' : s.Extends other number) : domain = other ∧ rid = number := by
  obtain ⟨hauthority, hsubs⟩ := h
  obtain ⟨hauthority', hsubs'⟩ := h'
  obtain ⟨hfront, hlast⟩ := List.append_inj' (hsubs.symm.trans hsubs') rfl
  obtain ⟨authority, subs, hle, hcount⟩ := domain
  obtain ⟨authority', subs', hle', hcount'⟩ := other
  obtain rfl : authority = authority' := hauthority.symm.trans hauthority'
  obtain rfl : subs = subs' := hfront
  cases hlast
  exact ⟨rfl, rfl⟩

end Sid

namespace WellKnown

/-- The kind has the same identifier everywhere. -/
def IsFixed (kind : WellKnown) : Prop :=
  ∃ authority subAuthorities, kind.form = .fixed authority subAuthorities

/-- The kind of the identifiers of logon sessions. -/
def logonIds : WellKnown := ⟨21, "LogonIds", .varying⟩

end WellKnown

/-! ### From an identifier to its kinds -/

/-- **An identifier is of a kind exactly if the kind leads to it**, whatever domain is given. -/
theorem Sid.isWellKnown_iff {s : Sid} {kind : WellKnown} :
    s.isWellKnown kind = true ↔ kind.IsFixed ∧ ∀ domain, kind.toSid domain = .ok s := by
  obtain ⟨code, name, form⟩ := kind
  cases form with
  | fixed authority subs =>
      have hfixed : WellKnown.IsFixed ⟨code, name, .fixed authority subs⟩ := ⟨_, _, rfl⟩
      have hmade : (∀ domain, WellKnown.toSid ⟨code, name, .fixed authority subs⟩ domain = .ok s)
          ↔ s.authority = authority ∧ s.subAuthorities = subs :=
        forall_const (Option Sid) |>.trans make_eq_ok_iff
      rw [hmade, isWellKnown, Bool.and_eq_true, beq_iff_eq, beq_iff_eq, eq_comm (a := authority),
        eq_comm (a := subs)]
      exact (and_iff_right hfixed).symm
  | inDomain rid => simp [isWellKnown, WellKnown.IsFixed]
  | varying => simp [isWellKnown, WellKnown.IsFixed]

namespace WellKnown

/-- The rows stand in the order of their codes. -/
theorem pairwise_code_lt : registry.Pairwise fun a b => a.code.toNat < b.code.toNat := by
  have hcodes : (registry.map (·.code.toNat)).Pairwise (· < ·) := by
    rw [code_registry]
    exact List.pairwise_lt_range
  exact List.pairwise_map.mp hcodes

theorem code_inj {a b : WellKnown} (ha : a ∈ registry) (hb : b ∈ registry) (h : a.code = b.code) :
    a = b := by
  have hnodup : (registry.map (·.code.toNat)).Nodup := by
    rw [code_registry]
    exact List.nodup_range
  exact List.inj_on_of_nodup_map hnodup ha hb (congrArg UInt8.toNat h)

/-- The row that is found is the one with the least code. -/
theorem find?_registry_eq_some_iff {p : WellKnown → Bool} {kind : WellKnown} :
    registry.find? p = some kind ↔
      kind ∈ registry ∧ p kind = true ∧
        ∀ other ∈ registry, p other = true → kind.code ≤ other.code := by
  have hleast : ∀ {found}, registry.find? p = some found → found ∈ registry ∧ p found = true ∧
      ∀ other ∈ registry, p other = true → found.code ≤ other.code := by
    intro found h
    refine ⟨List.mem_of_find?_eq_some h, List.find?_some h, fun other hother hp => ?_⟩
    -- What is found stands behind rows that fail the test and before rows with greater codes.
    obtain ⟨-, front, back, hsplit, hfront⟩ := List.find?_eq_some_iff_append.mp h
    have hsorted := pairwise_code_lt
    rw [hsplit] at hother hsorted
    rcases List.mem_append.mp hother with hbefore | hbehind
    · have hfail := hfront other hbefore
      rw [hp] at hfail
      cases hfail
    · rcases List.mem_cons.mp hbehind with rfl | hbehind
      · exact UInt8.le_refl _
      · have hrest := (List.pairwise_append.mp hsorted).2.1
        exact UInt8.le_iff_toNat_le.mpr
          (Nat.le_of_lt ((List.pairwise_cons.mp hrest).1 other hbehind))
  refine ⟨hleast, ?_⟩
  rintro ⟨hmem, hp, hmin⟩
  cases hfind : registry.find? p with
  | none => exact absurd hp (List.find?_eq_none.mp hfind kind hmem)
  | some found =>
      obtain ⟨hfound, hpass, hbelow⟩ := hleast hfind
      have hcode : found.code = kind.code :=
        UInt8.le_antisymm (hbelow kind hmem hp) (hmin found hfound hpass)
      rw [code_inj hfound hmem hcode]

end WellKnown

/-- Of the kinds whose identifier this is, the one with the least code is found. -/
theorem Sid.wellKnown?_eq_some_iff {s : Sid} {kind : WellKnown} :
    s.wellKnown? = some kind ↔ kind ∈ WellKnown.registry ∧ s.isWellKnown kind = true ∧
      ∀ other ∈ WellKnown.registry, s.isWellKnown other = true → kind.code ≤ other.code :=
  WellKnown.find?_registry_eq_some_iff

/-! ### From a kind to an identifier -/

namespace WellKnown

variable {kind : WellKnown} {rid : UInt32}

theorem toSid_of_inDomain (h : kind.form = .inDomain rid) (domain : Sid) :
    kind.toSid (some domain) =
      if domain.isAccountDomain then domain.append rid
      else .error (.identifier .notAccountDomain 0) := by
  rw [toSid, h]

theorem toSid_none (h : kind.form = .inDomain rid) :
    kind.toSid none = .error (.unavailable .domainMissing kind.code) := by
  rw [toSid, h]

theorem toSid_of_not_isDomain (h : kind.form = .inDomain rid) {domain : Sid}
    (hdomain : ¬domain.IsDomain) :
    kind.toSid (some domain) = .error (.identifier .notAccountDomain 0) := by
  rw [toSid_of_inDomain h, if_neg fun haccount => hdomain (Sid.isAccountDomain_iff.mp haccount)]

/-- What a kind in a domain leads to is that domain with the number of the kind behind it. -/
theorem toSid_eq_ok_iff (h : kind.form = .inDomain rid) {domain s : Sid} :
    kind.toSid (some domain) = .ok s ↔ domain.IsDomain ∧ s.Extends domain rid := by
  by_cases hdomain : domain.IsDomain
  · rw [toSid_of_inDomain h, if_pos (Sid.isAccountDomain_iff.mpr hdomain), Sid.append_eq_ok_iff]
    exact (and_iff_right hdomain).symm
  · rw [toSid_of_not_isDomain h hdomain]
    simp [hdomain]

/-- A kind in a domain always has an identifier. -/
theorem exists_toSid (h : kind.form = .inDomain rid) {domain : Sid} (hdomain : domain.IsDomain) :
    ∃ s, kind.toSid (some domain) = .ok s ∧ s.Extends domain rid := by
  obtain ⟨s, hs⟩ := hdomain.exists_extends rid
  exact ⟨s, (toSid_eq_ok_iff h).mpr ⟨hdomain, hs⟩, hs⟩

/-- No two kinds have the same number in a domain. -/
theorem rid_inj {other : WellKnown} (hkind : kind ∈ registry) (hother : other ∈ registry)
    (h : kind.form = .inDomain rid) (h' : other.form = .inDomain rid) : kind = other := by
  have hall : ∀ a ∈ registry, ∀ b ∈ registry, a.needsDomain = true → a.form = b.form → a = b := by
    decide +kernel
  refine hall kind hkind other hother ?_ (h.trans h'.symm)
  rw [needsDomain, h]

/-- **An identifier in a domain tells its domain and its kind.** -/
theorem toSid_inj {other : WellKnown} {number : UInt32} (hkind : kind ∈ registry)
    (hother : other ∈ registry) (h : kind.form = .inDomain rid) (h' : other.form = .inDomain number)
    {domain elsewhere s : Sid} (hs : kind.toSid (some domain) = .ok s)
    (hs' : other.toSid (some elsewhere) = .ok s) : domain = elsewhere ∧ kind = other := by
  obtain ⟨-, hextends⟩ := (toSid_eq_ok_iff h).mp hs
  obtain ⟨-, hextends'⟩ := (toSid_eq_ok_iff h').mp hs'
  obtain ⟨hdomain, rfl⟩ := hextends.inj hextends'
  exact ⟨hdomain, rid_inj hkind hother h h'⟩

/-- The sub-authorities that a form fixes. -/
def Form.subAuthorities : Form → List UInt32
  | .fixed _ subAuthorities => subAuthorities
  | .inDomain _ => []
  | .varying => []

/-- Fixed identifiers are shorter than those in a domain. -/
theorem length_le_of_fixed {authority : Nat} {subs : List UInt32} (hkind : kind ∈ registry)
    (h : kind.form = .fixed authority subs) : subs.length ≤ 2 := by
  have hall : ∀ kind ∈ registry, kind.form.subAuthorities.length ≤ 2 := by decide +kernel
  have hle := hall kind hkind
  rw [h] at hle
  exact hle

/-- **An identifier in a domain is not the identifier of a fixed kind.** -/
theorem isWellKnown_of_extends {s domain : Sid} (hdomain : domain.IsDomain)
    (hs : s.Extends domain rid) (hkind : kind ∈ registry) : s.isWellKnown kind = false := by
  obtain ⟨-, a, b, c, hsubs⟩ := hdomain
  cases hform : kind.form with
  | fixed authority subs =>
      have hlong : s.subAuthorities.length = 5 := by
        rw [hs.2, hsubs]
        rfl
      have hshort := length_le_of_fixed hkind hform
      have hne : subs ≠ s.subAuthorities := by
        rintro rfl
        omega
      simp [Sid.isWellKnown, hform, hne]
  | inDomain rid => rw [Sid.isWellKnown, hform]
  | varying => rw [Sid.isWellKnown, hform]

/-! ### Both directions -/

/-- **Well-known identifiers, both ways.**  An identifier is of a kind exactly if the kind is fixed
and leads to it, whatever domain is given, and of several such kinds the one with the least code is
found.  A kind in a domain needs a domain, takes no identifier but that of an account domain, and
with one always leads to that identifier with one more number; what it leads to is not of any fixed
kind and tells the domain and the kind.  No identifier of a logon session can be made. -/
theorem toSid_wellKnown :
    (∀ (s : Sid) (kind : WellKnown),
      s.isWellKnown kind = true ↔ kind.IsFixed ∧ ∀ domain, kind.toSid domain = .ok s)
    ∧ (∀ (s : Sid) (kind : WellKnown), s.wellKnown? = some kind ↔
        kind ∈ registry ∧ s.isWellKnown kind = true ∧
          ∀ other ∈ registry, s.isWellKnown other = true → kind.code ≤ other.code)
    ∧ (∀ s : Sid, s.wellKnown? = none ↔ ∀ kind ∈ registry, s.isWellKnown kind = false)
    ∧ (∀ kind ∈ registry, ∀ rid, kind.form = .inDomain rid →
        kind.toSid none = .error (.unavailable .domainMissing kind.code)
        ∧ (∀ domain : Sid, ¬domain.IsDomain →
            kind.toSid (some domain) = .error (.identifier .notAccountDomain 0))
        ∧ (∀ domain : Sid, domain.IsDomain → ∃ s, kind.toSid (some domain) = .ok s ∧
            s.authority = domain.authority ∧ s.subAuthorities = domain.subAuthorities ++ [rid] ∧
            ∀ other ∈ registry, s.isWellKnown other = false))
    ∧ (∀ kind ∈ registry, ∀ other ∈ registry, kind.needsDomain = true → other.needsDomain = true →
        ∀ domain elsewhere s : Sid, kind.toSid (some domain) = .ok s →
          other.toSid (some elsewhere) = .ok s → domain = elsewhere ∧ kind = other)
    ∧ logonIds ∈ registry
    ∧ ∀ domain, logonIds.toSid domain = .error (.unavailable .logonSession logonIds.code) := by
  have hrid : ∀ {kind : WellKnown}, kind.needsDomain = true → ∃ rid, kind.form = .inDomain rid := by
    intro kind h
    unfold needsDomain at h
    split at h
    · rename_i rid hform
      exact ⟨rid, hform⟩
    · cases h
  refine ⟨fun _ _ => Sid.isWellKnown_iff, fun _ _ => Sid.wellKnown?_eq_some_iff, ?_, ?_, ?_,
    by decide +kernel, fun _ => rfl⟩
  · intro s
    rw [Sid.wellKnown?, List.find?_eq_none]
    simp only [Bool.not_eq_true]
  · intro kind _ rid h
    refine ⟨toSid_none h, fun domain => toSid_of_not_isDomain h, fun domain hdomain => ?_⟩
    obtain ⟨s, hs, hextends⟩ := exists_toSid h hdomain
    exact ⟨s, hs, hextends.1, hextends.2, fun other => isWellKnown_of_extends hdomain hextends⟩
  · intro kind hkind other hother hneeds hneeds' domain elsewhere s hs hs'
    obtain ⟨rid, h⟩ := hrid hneeds
    obtain ⟨number, h'⟩ := hrid hneeds'
    exact toSid_inj hkind hother h h' hs hs'

/-- The administrators of a domain, made from it, and an identifier with two kinds. -/
theorem toSid_wellKnown_administrators :
    let domain : Sid := { authority := 5, subAuthorities := [21, 1, 2, 3] }
    let admins : WellKnown := ⟨41, "AccountDomainAdmins", .inDomain 512⟩
    let localUsers : Sid := { authority := 2, subAuthorities := [0] }
    admins ∈ registry ∧ domain.IsDomain
      ∧ (∃ s, admins.toSid (some domain) = .ok s ∧ s.subAuthorities = [21, 1, 2, 3, 512]
        ∧ s.wellKnown? = none)
      ∧ localUsers.wellKnown? = some ⟨2, "Local", .fixed 2 [0]⟩
      ∧ localUsers.isWellKnown ⟨80, "LocalLogon", .fixed 2 [0]⟩ = true := by
  intro domain admins localUsers
  obtain ⟨hback, hleast, hnone, hforth, -⟩ := toSid_wellKnown
  have hadmins : admins ∈ registry := by decide +kernel
  have hdomain : domain.IsDomain := ⟨rfl, 1, 2, 3, rfl⟩
  obtain ⟨-, -, hmade⟩ := hforth admins hadmins 512 rfl
  obtain ⟨s, hs, -, hsubs, hno⟩ := hmade domain hdomain
  refine ⟨hadmins, hdomain, ⟨s, hs, hsubs, (hnone s).mpr hno⟩, ?_, ?_⟩
  · refine (hleast localUsers _).mpr ⟨by decide +kernel, rfl, ?_⟩
    decide +kernel
  · exact (hback localUsers _).mpr ⟨⟨2, [0], rfl⟩, fun _ => rfl⟩

end WellKnown

end SecurityDescriptor
