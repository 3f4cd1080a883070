/-
Reading is local.

A value that starts at an offset is read from the bytes behind the offset, and only from as many of
them as belong to it.  So two runs of a reader that start at the same value come to the same result:
bytes put in front move the place of an error and nothing else, and a value that was read is read
again when bytes are put behind.  A failure may well turn into a success with more bytes behind.

Every layer compares sizes with the bytes that are left, and a descriptor follows slots from its own
start; the proof goes up the layers, and each uses of the layer below only that it is extensible.

Main definitions:

* `Decoder.IsExtensible` — what is read is read with anything behind it;
* `ReadsLocally` — two runs of a program on a slice that start at the same value.

Main results:

* `Sid.isExtensible_decode`, `Entry.isExtensible_decode`, `AccessList.isExtensible_decode`,
  `Descriptor.isExtensible_decode` — **no reader looks behind what it reads**;
* `readAt_local` — **nothing before the start and nothing behind the value influences the result**.
-/

import Mathlib.Algebra.Group.Nat.Defs
import SecurityDescriptor.Proofs.Descriptor.Positional

set_option relaxedAutoImplicit false
set_option autoImplicit false

namespace SecurityDescriptor

/-! ### Bytes behind -/

namespace Octets

theorem split?_append_right {n : Nat} {bytes front rest : List UInt8}
    (h : split? n bytes = some (front, rest)) (more : List UInt8) :
    split? n (bytes ++ more) = some (front, rest ++ more) := by
  obtain ⟨rfl, hlength⟩ := split?_eq_some_iff.mp h
  rw [List.append_assoc]
  exact split?_append (rest ++ more) hlength

theorem word?_append_right {width n : Nat} {bytes rest : List UInt8}
    (h : word? width bytes = some (n, rest)) (more : List UInt8) :
    word? width (bytes ++ more) = some (n, rest ++ more) := by
  obtain ⟨⟨front, rest'⟩, hcut, hpair⟩ := Option.map_eq_some_iff.mp h
  cases hpair
  rw [word?, split?_append_right hcut more]
  rfl

end Octets

namespace Decoder

variable {α : Type} {decode : Decoder α}

/-- What the decoder reads, it reads with anything behind it. -/
def IsExtensible (decode : Decoder α) : Prop :=
  ∀ {bytes : List UInt8} {a : α}, decode bytes = .ok a → ∀ more, decode (bytes ++ more) = .ok a

/-- What is read at an offset is read there with anything behind it. -/
theorem IsExtensible.startingAt (h : decode.IsExtensible) {bytes : List UInt8} {offset : Nat} {a : α}
    (hread : decode.startingAt bytes offset = .ok a) (more : List UInt8) :
    decode.startingAt (bytes ++ more) offset = .ok a := by
  rw [startingAt_eq_ok_iff] at hread ⊢
  rw [List.drop_append]
  exact h hread _

end Decoder

theorem Sid.isExtensible_decode : Decoder.IsExtensible Sid.decode := by
  intro bytes sid h more
  obtain ⟨rest, rfl⟩ := decode_eq_ok_iff.mp h
  rw [List.append_assoc]
  exact decode_encode_append sid (rest ++ more)

theorem Entry.isExtensible_decode : Decoder.IsExtensible Entry.decode := by
  intro bytes entry h more
  obtain ⟨hwf, body, rest, hspell, hmax, rfl⟩ := decode_eq_ok_iff.mp h
  simp only [List.cons_append, List.append_assoc]
  exact decode_of_spelling hwf hspell hmax (rest ++ more)

namespace AccessList

theorem Header.decode?_append {bytes : List UInt8} {header : Header}
    (h : Header.decode? bytes = some header) (more : List UInt8) :
    Header.decode? (bytes ++ more) = some header := by
  match bytes, h with
  | revision :: _ :: rest, h =>
      obtain ⟨⟨size, rest₁⟩, hsize, h⟩ := Option.bind_eq_some_iff.mp h
      obtain ⟨⟨count, rest₂⟩, hcount, h⟩ := Option.bind_eq_some_iff.mp h
      obtain ⟨⟨reserved, rest₃⟩, hreserved, h⟩ := Option.bind_eq_some_iff.mp h
      simp only [List.cons_append, Header.decode?, Octets.word?_append_right hsize more,
        Octets.word?_append_right hcount more, Octets.split?_append_right hreserved more,
        Option.bind_eq_bind, Option.bind_some]
      exact h

/-- The entries are read inside the size that the list declares. -/
theorem isExtensible_decode : Decoder.IsExtensible AccessList.decode := by
  intro bytes list h more
  unfold decode at h ⊢
  split at h
  · cases h
  rename_i header hheader
  split at h
  · cases h
  rename_i scope rest hscope
  rw [Header.decode?_append hheader more]
  dsimp only
  rw [Octets.split?_append_right hscope more]
  exact h

end AccessList

namespace Descriptor

theorem Header.decode?_append {bytes : List UInt8} {header : Header}
    (h : Header.decode? bytes = some header) (more : List UInt8) :
    Header.decode? (bytes ++ more) = some header := by
  match bytes, h with
  | revision :: resourceManager :: rest, h =>
      obtain ⟨⟨control, rest₁⟩, hcontrol, h⟩ := Option.bind_eq_some_iff.mp h
      obtain ⟨⟨owner, rest₂⟩, howner, h⟩ := Option.bind_eq_some_iff.mp h
      obtain ⟨⟨group, rest₃⟩, hgroup, h⟩ := Option.bind_eq_some_iff.mp h
      obtain ⟨⟨sacl, rest₄⟩, hsacl, h⟩ := Option.bind_eq_some_iff.mp h
      obtain ⟨⟨dacl, rest₅⟩, hdacl, h⟩ := Option.bind_eq_some_iff.mp h
      simp only [List.cons_append, Header.decode?, Octets.word?_append_right hcontrol more,
        Octets.word?_append_right howner more, Octets.word?_append_right hgroup more,
        Octets.word?_append_right hsacl more, Octets.word?_append_right hdacl more,
        Option.bind_eq_bind, Option.bind_some]
      exact h

theorem decodeSlot_append {α : Type} {decode : Decoder α} (hdecode : decode.IsExtensible)
    {bytes : List UInt8} {inUse : Bool} {slot : Nat} {component : Option α}
    (h : decodeSlot decode bytes inUse slot = .ok component) (more : List UInt8) :
    decodeSlot decode (bytes ++ more) inUse slot = .ok component := by
  unfold decodeSlot at h ⊢
  split at h
  · rename_i huse
    obtain ⟨a, ha, h⟩ := Outcome.bind_eq_ok_iff.mp h
    rw [if_pos huse, hdecode.startingAt ha more]
    exact h
  · rename_i huse
    rw [if_neg huse]
    exact h

theorem isExtensible_decode : Decoder.IsExtensible Descriptor.decode := by
  intro bytes d h more
  unfold decode at h ⊢
  split at h
  · cases h
  rename_i header hheader
  rw [Header.decode?_append hheader more]
  dsimp only
  split at h
  · cases h
  rename_i hrevision
  split at h
  · cases h
  rename_i hform
  obtain ⟨owner, howner, h⟩ := Outcome.bind_eq_ok_iff.mp h
  obtain ⟨group, hgroup, h⟩ := Outcome.bind_eq_ok_iff.mp h
  obtain ⟨sacl, hsacl, h⟩ := Outcome.bind_eq_ok_iff.mp h
  obtain ⟨dacl, hdacl, h⟩ := Outcome.bind_eq_ok_iff.mp h
  rw [if_neg hrevision, if_neg hform, decodeSlot_append Sid.isExtensible_decode howner more,
    Outcome.ok_bind, decodeSlot_append Sid.isExtensible_decode hgroup more, Outcome.ok_bind,
    decodeSlot_append AccessList.isExtensible_decode hsacl more, Outcome.ok_bind,
    decodeSlot_append AccessList.isExtensible_decode hdacl more, Outcome.ok_bind]
  exact h

end Descriptor

/-! ### Two runs -/

/-- **Two runs that start at the same value.**  With bytes in front, the program comes to the same
value or to the same error further on; with bytes behind, it comes to the same value. -/
structure ReadsLocally {α : Type} (read : List UInt8 → Nat → Checked α)
    (front bytes rest : List UInt8) (offset : Nat) : Prop where
  moved : ∃ result, (read bytes offset).run = .ok result ∧
    (read (front ++ bytes) (front.length + offset)).run
      = .ok (result.mapError (Error.shift front.length))
  extended : ∀ a, (read bytes offset).run = .ok (.ok a) →
    (read (bytes ++ rest) offset).run = .ok (.ok a)

theorem ReadsLocally.of_isExtensible {α : Type} {decode : Decoder α}
    {read : List UInt8 → Nat → Checked α} (hdecode : decode.IsExtensible)
    (hread : ∀ {bytes : List UInt8}, bytes.length < Checked.sliceLimit → ∀ offset,
      read bytes offset = Checked.settled (decode.startingAt bytes offset))
    {front bytes rest : List UInt8} (hlength : (front ++ bytes ++ rest).length < Checked.sliceLimit)
    (offset : Nat) : ReadsLocally read front bytes rest offset := by
  simp only [List.length_append] at hlength
  have hbytes : read bytes offset = Checked.settled (decode.startingAt bytes offset) :=
    hread (by omega) offset
  have hfront : read (front ++ bytes) (front.length + offset)
      = Checked.settled (decode.startingAt (front ++ bytes) (front.length + offset)) :=
    hread (by simp only [List.length_append]; omega) _
  have hrest : read (bytes ++ rest) offset
      = Checked.settled (decode.startingAt (bytes ++ rest) offset) :=
    hread (by simp only [List.length_append]; omega) offset
  rw [Decoder.startingAt_append] at hfront
  refine ⟨⟨decode.startingAt bytes offset, ?_, ?_⟩, ?_⟩
  · rw [hbytes, Checked.run_settled]
  · rw [hfront, Checked.run_settled]
  · intro a ha
    rw [hbytes, Checked.run_settled] at ha
    rw [hrest, Checked.run_settled, hdecode.startingAt (Except.ok.inj ha) rest]

/-- **Reading is local**: nothing before the start and nothing behind the value influences the
result. -/
theorem readAt_local {front bytes rest : List UInt8}
    (hlength : (front ++ bytes ++ rest).length < 2 ^ 63) (offset : Nat) :
    ReadsLocally Sid.readAt front bytes rest offset ∧
      ReadsLocally Entry.readAt front bytes rest offset ∧
      ReadsLocally AccessList.readAt front bytes rest offset ∧
      ReadsLocally Descriptor.readAt front bytes rest offset :=
  ⟨.of_isExtensible Sid.isExtensible_decode Sid.readAt_eq hlength offset,
    .of_isExtensible Entry.isExtensible_decode Entry.readAt_eq hlength offset,
    .of_isExtensible AccessList.isExtensible_decode AccessList.readAt_eq hlength offset,
    .of_isExtensible Descriptor.isExtensible_decode Descriptor.readAt_eq hlength offset⟩

/-- An identifier that announces two sub-authorities and holds one. -/
def cutSid : List UInt8 := [1, 2, 0, 0, 0, 0, 0, 5, 32, 0, 0, 0]

/-- The damage moves with the bytes; a whole identifier is read with anything behind it. -/
theorem readAt_local_cutSid :
    ([7, 7] ++ cutSid ++ [18, 0, 0, 0]).length < 2 ^ 63 ∧
      (Sid.readAt ([7, 7] ++ cutSid) 2).run
        = .ok (.error (.identifier .truncatedSubAuthorities 10)) ∧
      (Sid.readAt (cutSid ++ [18, 0, 0, 0] ++ [7]) 0).run
        = .ok (.ok { authority := 5, subAuthorities := [32, 18] }) := by
  have hcut : ([7, 7] ++ cutSid ++ [18, 0, 0, 0]).length < 2 ^ 63 := by decide
  have hwhole : ([] ++ (cutSid ++ [18, 0, 0, 0]) ++ [7]).length < 2 ^ 63 := by decide
  obtain ⟨result, hresult, hmoved⟩ := (readAt_local hcut 0).1.moved
  have hdamage : (Sid.readAt cutSid 0).run
      = .ok (.error (.identifier .truncatedSubAuthorities 8)) := by decide
  rw [hdamage] at hresult
  cases hresult
  exact ⟨hcut, hmoved, (readAt_local hwhole 0).1.extended _ (by decide)⟩

end SecurityDescriptor
