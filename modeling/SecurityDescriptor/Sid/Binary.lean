/-
The binary form of security identifiers.

One byte for the revision, one for the number of sub-authorities, six for the authority with the
most significant first, then four for each sub-authority with the least significant first.

Main definitions:

* `Sid.encode`, `Sid.decode` — the binary form and its reader;
* `Sid.decodeAt` — the identifier at an offset.

Main results:

* `Sid.length_encode` — the binary form has `Sid.size` bytes;
* `Sid.decode_encode_append` — **an identifier is read back from its binary form**, whatever
  follows.
-/

import SecurityDescriptor.Decoder
import SecurityDescriptor.Octets
import SecurityDescriptor.Sid.Basic

set_option relaxedAutoImplicit false
set_option autoImplicit false

namespace SecurityDescriptor

namespace Sid

/-- The bytes of a run of sub-authorities. -/
def encodeWords (words : List UInt32) : List UInt8 :=
  words.flatMap fun word => Octets.little 4 word.toNat

/-- The binary form of an identifier. -/
def encode (s : Sid) : List UInt8 :=
  revision :: UInt8.ofNat s.count :: (Octets.big 6 s.authority ++ encodeWords s.subAuthorities)

/-- The first `count` sub-authorities of a byte string, if there are that many. -/
def decodeWords : Nat → List UInt8 → Option (List UInt32)
  | 0, _ => some []
  | count + 1, bytes => do
      let (word, rest) ← Octets.word? 4 bytes
      return UInt32.ofNat word :: (← decodeWords count rest)

/-- Reads an identifier. -/
def decode : Decoder Sid
  | revision :: count :: rest =>
      match Octets.split? 6 rest with
      | none => .error (.identifier .shortHeader 0)
      | some (authority, body) =>
          if revision ≠ Sid.revision then
            .error (.identifier .revision 0)
          else if maxCount < count.toNat then
            .error (.identifier .tooManySubAuthorities 1)
          else
            match decodeWords count.toNat body with
            | none => .error (.identifier .truncatedSubAuthorities 8)
            | some words => make (Octets.bigValue authority) words
  | _ => .error (.identifier .shortHeader 0)

/-- The identifier that starts `offset` bytes into `bytes`. -/
def decodeAt (bytes : List UInt8) (offset : Nat) : Except Error Sid :=
  Decoder.startingAt decode bytes offset

@[simp] theorem length_encodeWords (words : List UInt32) :
    (encodeWords words).length = 4 * words.length := by
  induction words with
  | nil => rfl
  | cons word words ih =>
    simp only [encodeWords, List.flatMap_cons, List.length_append, Octets.length_little,
      List.length_cons] at ih ⊢
    omega

@[simp] theorem length_encode (s : Sid) : s.encode.length = s.size := by
  simp only [encode, List.length_cons, List.length_append, Octets.length_big, length_encodeWords,
    size, minSize, count]
  omega

/-- A run of sub-authorities is read back from its bytes. -/
theorem decodeWords_encodeWords_append (words : List UInt32) (rest : List UInt8) :
    decodeWords words.length (encodeWords words ++ rest) = some words := by
  induction words with
  | nil => rfl
  | cons word words ih =>
    have h : word.toNat % 4294967296 = word.toNat := Nat.mod_eq_of_lt word.toNat_lt
    simp only [encodeWords] at ih
    simp [decodeWords, encodeWords, List.append_assoc, h, ih]

/-- **An identifier is read back from its binary form.** -/
theorem decode_encode_append (s : Sid) (rest : List UInt8) : decode (s.encode ++ rest) = .ok s := by
  have hle : s.count ≤ 15 := s.count_le
  -- The count fits in its byte and the authority in its six.
  have hcount : (UInt8.ofNat s.count).toNat = s.count := by
    rw [UInt8.toNat_ofNat']
    omega
  have hauthority : s.authority < Nat.pow 256 6 := Nat.lt_of_le_of_lt s.authority_le (by decide)
  have hsplit :
      Octets.split? 6
          (Octets.big 6 s.authority ++ (encodeWords s.subAuthorities ++ rest))
        = some (Octets.big 6 s.authority, encodeWords s.subAuthorities ++ rest) :=
    Octets.split?_append _ (Octets.length_big 6 s.authority)
  have hwords : decodeWords s.count (encodeWords s.subAuthorities ++ rest)
      = some s.subAuthorities :=
    decodeWords_encodeWords_append s.subAuthorities rest
  simp only [encode, List.cons_append, List.append_assoc, decode, hsplit, ne_eq, not_true_eq_false,
    if_false, hcount, maxCount, hwords, Octets.bigValue_big_of_lt hauthority, make_parts,
    Nat.not_lt.mpr hle]

end Sid

end SecurityDescriptor
