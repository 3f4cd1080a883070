/-
The program that reads identifiers by position, against the reader.

Main results:

* `Sid.readAt_eq` — **the program comes to what the reader reads** and never traps;
* `Sid.measure_eq` — nor does the program that works out the size of an identifier.
-/

import SecurityDescriptor.Positional
import SecurityDescriptor.Proofs.Canonical

set_option relaxedAutoImplicit false
set_option autoImplicit false

namespace SecurityDescriptor

open Checked

namespace Sid

theorem mapM_word_quads (bytes : List UInt8) :
    (quads bytes).mapM (word 4 · 0) = pure ((quads bytes).map Octets.littleValue) := by
  refine Checked.mapM_eq fun raw hraw => ?_
  have hlength : raw.length = 4 := by
    induction bytes using quads.induct with
    | case1 a b c d rest ih =>
        rw [quads] at hraw
        rcases List.mem_cons.mp hraw with rfl | hraw
        · rfl
        · exact ih hraw
    | case2 bytes h =>
        rw [quads] at hraw
        · cases hraw
        · exact h
  rw [word_eq (by omega), List.drop_zero, List.take_of_length_le (Nat.le_of_eq hlength)]

/-- A run of sub-authorities is cut out as a whole and then taken apart. -/
theorem decodeWords_eq (count : Nat) (bytes : List UInt8) :
    decodeWords count bytes = (Octets.split? (4 * count) bytes).map fun cut =>
      ((quads cut.1).map Octets.littleValue).map UInt32.ofNat := by
  induction count generalizing bytes with
  | zero => rfl
  | succ count ih =>
      have hcount : 4 * (count + 1) = 4 + 4 * count := by omega
      rw [decodeWords, hcount]
      cases hword : Octets.word? 4 bytes with
      | none =>
          have hshort := Octets.word?_eq_none_iff.mp hword
          have hcut : Octets.split? (4 + 4 * count) bytes = none :=
            Octets.split?_eq_none_iff.mpr (by omega)
          rw [hcut]
          rfl
      | some read =>
          obtain ⟨word, rest⟩ := read
          obtain ⟨hlt, rfl⟩ := Octets.word?_eq_some_iff.mp hword
          have hvalue : Octets.littleValue (Octets.little 4 word) = word :=
            Octets.littleValue_little_of_lt hlt
          have hquads : ∀ body : List UInt8, quads (Octets.little 4 word ++ body)
              = Octets.little 4 word :: quads body := fun _ => rfl
          rw [Octets.split?_add_append (Octets.length_little 4 word)]
          dsimp only [Option.bind_eq_bind, Option.bind_some]
          rw [ih rest]
          cases Octets.split? (4 * count) rest with
          | none => rfl
          | some cut => simp [hquads, hvalue]

theorem decode_of_length_lt {bytes : List UInt8} (h : bytes.length < minSize) :
    decode bytes = .error (.identifier .shortHeader 0) := by
  match bytes, h with
  | [], _ | [_], _ => rfl
  | _ :: _ :: rest, h =>
      have hcut : Octets.split? 6 rest = none := by
        simp only [List.length_cons, minSize] at h
        exact Octets.split?_eq_none_iff.mpr (by omega)
      rw [decode, hcut]

/-- What is wrong with the parts of an identifier is wrong wherever it stands. -/
theorem mapError_shift_make (n authority : Nat) (words : List UInt32) :
    (make authority words).mapError (Error.shift n) = make authority words := by
  unfold make
  split
  · split <;> rfl
  · rfl

/-- The header of an identifier: revision, count, and six bytes of authority. -/
theorem exists_fields {header : List UInt8} (h : header.length = minSize) :
    ∃ (revision count : UInt8) (authority : List UInt8),
      header = revision :: count :: authority ∧ authority.length = 6 := by
  obtain ⟨revision, tail, rfl⟩ := List.exists_cons_of_length_eq_add_one h
  obtain ⟨count, authority, rfl⟩ := List.exists_cons_of_length_eq_add_one (Nat.succ.inj h)
  exact ⟨revision, count, authority, rfl, Nat.succ.inj (Nat.succ.inj h)⟩

/-- **The program on a slice reads what the reader reads**, and never traps. -/
theorem readAt_eq {bytes : List UInt8} (hbytes : bytes.length < sliceLimit) (offset : Nat) :
    readAt bytes offset = settled (decodeAt bytes offset) := by
  have hlimit := sliceLimit_add_le
  rw [readAt, slice?_eq hbytes (.inr (by decide)), decodeAt, Decoder.startingAt]
  cases hheader : Octets.split? minSize (bytes.drop offset) with
  | none =>
      rw [decode_of_length_lt (Octets.split?_eq_none_iff.mp hheader)]
      rfl
  | some cut =>
      obtain ⟨header, body⟩ := cut
      obtain ⟨hplace, hbody⟩ := Octets.drop_of_split? (by decide) hheader
      obtain ⟨hview, hlength⟩ := Octets.split?_eq_some_iff.mp hheader
      obtain ⟨rev, count, authority, rfl, hauthority⟩ := exists_fields hlength
      have height : 8 = (rev :: count :: authority).length := hlength.symm
      have hall : (rev :: count :: authority).take 8 = rev :: count :: authority :=
        List.take_of_length_le (Nat.le_of_eq hlength)
      have hbetween : between (rev :: count :: authority) 2 8 = pure authority := by
        rw [between_eq (by decide) (Nat.le_of_eq height), hall]
        rfl
      have hrev : byte (rev :: count :: authority) 0 = pure rev := rfl
      have hcount : byte (rev :: count :: authority) 1 = pure count := rfl
      rw [hview, List.cons_append, List.cons_append, decode, Octets.split?_append body hauthority,
        Option.map_some, required_some, pure_bind, hrev, pure_bind]
      dsimp only
      split
      · rfl
      · rw [hcount, pure_bind]
        split
        · rw [add_eq (by omega)]
          rfl
        · rename_i hmax
          have hmul : 4 * count.toNat < wordLimit := by
            rw [maxCount] at hmax
            omega
          rw [hbetween, pure_bind, add_eq (by omega), pure_bind, mul_eq hmul, pure_bind,
            slice?_eq hbytes (.inl hplace), hbody, decodeWords_eq]
          cases Octets.split? (4 * count.toNat) body with
          | none => rfl
          | some cut =>
              simp only [Option.map_some, required_some, pure_bind, mapM_word_quads]
              rw [mapError_shift_make]

/-- A size is worked out without a trap. -/
theorem measure_eq (s : Sid) : s.measure = pure s.size := by
  have hlimit := sliceLimit_add_le
  have hcount := s.count_le
  have hsize := s.size_le
  rw [maxCount] at hcount
  rw [measure, mul_eq (by rw [count]; omega), pure_bind, add_eq]
  · rfl
  · simp only [maxSize, minSize, maxCount, size] at hsize ⊢
    omega

/-- An identifier that is read ends within the bytes. -/
theorem place_of_decode {bytes rest : List UInt8} {start : Nat} {sid : Sid}
    (hrest : bytes.drop start = rest) (h : decode rest = .ok sid) :
    start + sid.size ≤ bytes.length ∧ bytes.drop (start + sid.size) = rest.drop sid.size := by
  obtain ⟨tail, htail⟩ := decode_eq_ok_iff.mp h
  have hlength := congrArg List.length hrest
  have hpos : 0 < sid.size := Nat.lt_of_lt_of_le (by decide) (Nat.le_add_right minSize _)
  rw [htail, List.length_drop, List.length_append, length_encode] at hlength
  refine ⟨by omega, ?_⟩
  rw [← List.drop_drop, hrest]

end Sid

end SecurityDescriptor
