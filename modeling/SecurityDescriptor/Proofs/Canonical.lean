/-
**Identifiers and GUIDs have one binary form each.**

The leaves of every binary form are identifiers and GUIDs.  Both readers accept a byte string if
and only if it begins with the binary form of the value that they return, so nothing is lost by
reading and no second spelling is let in.  The readers of entries, lists and descriptors rest on
these two equivalences, in both directions.

Main results:

* `Sid.decodeWords_eq_some_iff` — a run of sub-authorities is read exactly from its bytes;
* `Sid.decode_eq_ok_iff` — **an identifier is read exactly from its binary form**, whatever follows;
* `Guid.decode?_eq_some_iff` — **a GUID is read exactly from its binary form**, and the rest with
  it.
-/

import SecurityDescriptor.Guid
import SecurityDescriptor.Sid.Binary

set_option relaxedAutoImplicit false
set_option autoImplicit false

namespace SecurityDescriptor

/-! ### Identifiers -/

namespace Sid

theorem encodeWords_cons (word : UInt32) (words : List UInt32) :
    encodeWords (word :: words) = Octets.little 4 word.toNat ++ encodeWords words := by
  simp only [encodeWords, List.flatMap_cons]

/-- A run of sub-authorities is read exactly from its bytes. -/
theorem decodeWords_eq_some_iff {count : Nat} {bytes : List UInt8} {words : List UInt32} :
    decodeWords count bytes = some words
      ↔ words.length = count ∧ ∃ rest, bytes = encodeWords words ++ rest := by
  constructor
  · intro h
    induction count generalizing bytes words with
    | zero =>
        cases h
        exact ⟨rfl, bytes, rfl⟩
    | succ count ih =>
        obtain ⟨⟨word, rest⟩, hword, h⟩ := Option.bind_eq_some_iff.1 h
        obtain ⟨tail, htail, h⟩ := Option.bind_eq_some_iff.1 h
        cases h
        obtain ⟨hlt, rfl⟩ := Octets.word?_eq_some_iff.1 hword
        obtain ⟨rfl, rest', rfl⟩ := ih htail
        have hval : (UInt32.ofNat word).toNat = word := UInt32.toNat_ofNat_of_lt' hlt
        refine ⟨rfl, rest', ?_⟩
        rw [encodeWords_cons, hval, List.append_assoc]
  · rintro ⟨rfl, rest, rfl⟩
    exact decodeWords_encodeWords_append words rest

/-- What the reader of an identifier has checked when it succeeds, part by part. -/
theorem eq_of_decode {bytes : List UInt8} {s : Sid} (h : decode bytes = .ok s) :
    ∃ rest, bytes = s.encode ++ rest := by
  match bytes, h with
  | rev :: count :: body, h =>
      rw [decode] at h
      cases hsplit : Octets.split? 6 body with
      | none => simp [hsplit] at h
      | some parts =>
          obtain ⟨authority, tail⟩ := parts
          obtain ⟨rfl, hlen⟩ := Octets.split?_eq_some_iff.1 hsplit
          simp only [hsplit] at h
          split at h
          · cases h
          · rename_i hrev
            split at h
            · cases h
            · split at h
              · cases h
              · rename_i words hwords
                obtain ⟨hcount, rest, rfl⟩ := decodeWords_eq_some_iff.1 hwords
                obtain ⟨ha, hw⟩ := make_eq_ok_iff.1 h
                have hbig : Octets.big 6 s.authority = authority := by
                  rw [ha, ← hlen, Octets.big_bigValue]
                have hbyte : UInt8.ofNat s.count = count := by
                  rw [Sid.count, hw, hcount, UInt8.ofNat_toNat]
                refine ⟨rest, ?_⟩
                rw [encode, hbig, hbyte, hw, ← Decidable.of_not_not hrev]
                simp only [List.cons_append, List.append_assoc]

/-- **An identifier is read exactly from its binary form.** -/
theorem decode_eq_ok_iff {bytes : List UInt8} {s : Sid} :
    decode bytes = .ok s ↔ ∃ rest, bytes = s.encode ++ rest := by
  constructor
  · exact eq_of_decode
  · rintro ⟨rest, rfl⟩
    exact decode_encode_append s rest

end Sid

/-! ### GUIDs -/

namespace Guid

/-- **A GUID is read exactly from its binary form.** -/
theorem decode?_eq_some_iff {bytes rest : List UInt8} {g : Guid} :
    decode? bytes = some (g, rest) ↔ bytes = g.encode ++ rest := by
  constructor
  · intro h
    obtain ⟨⟨d1, b1⟩, h1, h⟩ := Option.bind_eq_some_iff.1 h
    obtain ⟨⟨d2, b2⟩, h2, h⟩ := Option.bind_eq_some_iff.1 h
    obtain ⟨⟨d3, b3⟩, h3, h⟩ := Option.bind_eq_some_iff.1 h
    obtain ⟨⟨d4, b4⟩, h4, h⟩ := Option.bind_eq_some_iff.1 h
    cases h
    obtain ⟨lt1, rfl⟩ := Octets.word?_eq_some_iff.1 h1
    obtain ⟨lt2, rfl⟩ := Octets.word?_eq_some_iff.1 h2
    obtain ⟨lt3, rfl⟩ := Octets.word?_eq_some_iff.1 h3
    obtain ⟨rfl, hlen⟩ := Octets.split?_eq_some_iff.1 h4
    have e1 : (UInt32.ofNat d1).toNat = d1 := UInt32.toNat_ofNat_of_lt' lt1
    have e2 : (UInt16.ofNat d2).toNat = d2 := UInt16.toNat_ofNat_of_lt' lt2
    have e3 : (UInt16.ofNat d3).toNat = d3 := UInt16.toNat_ofNat_of_lt' lt3
    have lt4 : Octets.bigValue d4 < 2 ^ 64 := by
      have h := Octets.bigValue_lt d4
      rw [hlen] at h
      exact h
    have e4 : (UInt64.ofNat (Octets.bigValue d4)).toNat = Octets.bigValue d4 :=
      UInt64.toNat_ofNat_of_lt' lt4
    have e5 : Octets.big 8 (Octets.bigValue d4) = d4 := by rw [← hlen, Octets.big_bigValue]
    simp only [encode, ofFields, e1, e2, e3, e4, e5, List.append_assoc]
  · rintro rfl
    exact decode?_encode_append g rest

end Guid

end SecurityDescriptor
