/-
**Lists with entries that declare too great a size.**

Some writers declare an object entry without a callback 32 bytes greater than it is.  In a directory
service list they also leave these bytes behind the entry, and the reader steps over them, since it
goes by the declared size there.  In any other list nothing is left behind the entry, and the reader
goes by the true size; but the declared size is what it holds against the end of the list, so what
one entry claims overlaps with the entries behind it, and the last ones may claim more than there is.

This module says what comes of such a list, for any mixture of entries.  The cursor is the invariant:
under either revision it stands at the front of the next entry, and the bytes from there on are those
of the entries still to be read and of the slack behind them.

Main definitions:

* `AccessList.Placed`, `AccessList.Draft` — an entry as it is put into a list, and a list laid out
  from such entries;
* `AccessList.Overreaches` — some entry is declared beyond the end of the list.

Main results:

* `AccessList.decodeEntries_placed` — one entry is read, and the cursor stands at the next one;
* `AccessList.decodeEntries_items`, `AccessList.decodeEntries_overreaching` — the run over all
  entries, to its end or to the first entry that is declared too far;
* `AccessList.decodeAt_draft` — **over-declared entries are read for what they are**, or the list is
  refused, and they are written again with their true sizes.
-/

import SecurityDescriptor.Proofs.AccessList.Reachable
import SecurityDescriptor.Proofs.Entry.Spelling

set_option relaxedAutoImplicit false
set_option autoImplicit false

namespace SecurityDescriptor

namespace AccessList

/-! ### Entries as they are placed in a list -/

/-- An entry as a writer places it in a list: declared at its true size or 32 bytes greater, with
bytes left behind it. -/
structure Placed where
  entry : Entry
  overdeclared : Bool
  padding : List UInt8
  deriving DecidableEq, Repr

namespace Placed

/-- The size that the header of the entry declares. -/
def declared (p : Placed) : Nat := p.entry.size + if p.overdeclared then 32 else 0

/-- The bytes up to the next entry. -/
def bytes (p : Placed) : List UInt8 := p.entry.encodeDeclaring p.declared ++ p.padding

/-- Only object entries without a callback are declared too great. -/
structure IsProper (p : Placed) : Prop where
  reachable : p.entry.Reachable
  plain : p.overdeclared = true → p.entry.body.isPlainObject = true

/-- An entry that is declared as it is, with nothing behind it. -/
def honest (entry : Entry) : Placed := ⟨entry, false, []⟩

theorem length_bytes (p : Placed) : p.bytes.length = p.entry.size + p.padding.length := by
  rw [bytes, List.length_append, Entry.length_encodeDeclaring]

theorem declared_lt {p : Placed} (h : p.IsProper) : p.declared < 65536 := by
  have hwf := h.reachable.wellFormed
  have hle := hwf.size_le
  simp only [Entry.maxSize] at hle
  rw [declared, Entry.size]
  cases hover : p.overdeclared with
  | false =>
      rw [if_neg Bool.false_ne_true]
      omega
  | true =>
      have hsmall := hwf.size_le_of_isPlainObject (h.plain hover)
      rw [if_pos rfl]
      omega

theorem declared_mod {p : Placed} (h : p.IsProper) : p.declared % 4 = 0 := by
  have hsize := Entry.size_mod_of_wellFormed h.reachable.wellFormed
  rw [declared]
  split <;> omega

theorem decodeHeader_append {p : Placed} (h : p.IsProper) (rest : List UInt8) :
    Entry.Header.decode? (p.bytes ++ rest)
      = some ⟨p.entry.code, p.entry.flags, p.declared⟩ := by
  refine Entry.Header.decode?_eq_some_iff.2
    ⟨declared_lt h, Entry.encodeBody p.entry.body ++ (p.padding ++ rest), ?_⟩
  simp only [bytes, Entry.encodeDeclaring, Entry.encodeHeader, List.cons_append, List.append_assoc]

/-- **An over-declared entry is read as long as the declared bytes are there**, be they left behind
it or those of its neighbours. -/
theorem decode_append {p : Placed} (h : p.IsProper) {rest : List UInt8}
    (hroom : p.declared ≤ (p.bytes ++ rest).length) :
    Entry.decode (p.bytes ++ rest) = .ok p.entry := by
  have hwf := h.reachable.wellFormed
  rw [bytes, List.append_assoc]
  rw [bytes, List.append_assoc, List.length_append, Entry.length_encodeDeclaring] at hroom
  cases hover : p.overdeclared with
  | false =>
      have hdeclared : p.declared = p.entry.size := by
        rw [declared, hover, if_neg Bool.false_ne_true, Nat.add_zero]
      rw [hdeclared, ← Entry.encode_eq_encodeDeclaring]
      exact Entry.decode_encode_append hwf _
  | true =>
      have hdeclared : p.declared = p.entry.size + 32 := by
        rw [declared, hover, if_pos rfl]
      rw [hdeclared] at hroom ⊢
      -- The surplus is whatever the next 32 bytes are.
      have hsurplus : ((p.padding ++ rest).take 32).length = 32 :=
        List.length_take_of_le (by omega)
      have hspelling := Entry.Spelling.surplus (h.plain hover) _ hsurplus
      rw [Entry.overwrite_encode] at hspelling
      refine (Entry.decode_eq_ok_iff_spelling hwf).2
        ⟨_, (p.padding ++ rest).drop 32, hspelling, ?_⟩
      rw [List.append_assoc, List.take_append_drop]

end Placed

/-! ### Lists laid out from placed entries -/

/-- Among the entries of a list that ends at `size`, the first of them at `start`, the one at
`position` is over-declared, and declared beyond the end. -/
def Overreaches (start size : Nat) (items : List Placed) (position : Nat) : Prop :=
  ∃ before p after, items = before ++ p :: after ∧ p.overdeclared = true ∧
    position = start + (before.flatMap Placed.bytes).length ∧ size < position + p.declared

/-- A list laid out from placed entries, with a declared size and three bytes without a meaning. -/
structure Draft where
  revision : UInt8
  size : Nat
  items : List Placed
  reserved : UInt8 × UInt8 × UInt8
  deriving DecidableEq, Repr

namespace Draft

/-- The bytes of the list, up to the slack. -/
def bytes (d : Draft) : List UInt8 :=
  d.revision :: d.reserved.1 ::
    (Octets.little 2 d.size ++ (Octets.little 2 d.items.length ++
      (d.reserved.2.1 :: d.reserved.2.2 :: d.items.flatMap Placed.bytes)))

/-- The list that is meant. -/
def list (d : Draft) : AccessList := ⟨d.revision, d.items.map Placed.entry⟩

/-- The entries can be had, and the declared size covers them and fits in its field. -/
structure IsProper (d : Draft) : Prop where
  items : ∀ p ∈ d.items, p.IsProper
  covers : d.bytes.length ≤ d.size
  bounded : d.size ≤ 65535

/-- Over-declared entries are followed by the 32 bytes that they declare, the others by nothing. -/
def IsPadded (d : Draft) : Prop :=
  ∀ p ∈ d.items, p.padding.length = if p.overdeclared then 32 else 0

/-- No entry is followed by anything. -/
def IsTight (d : Draft) : Prop := ∀ p ∈ d.items, p.padding = []

/-- The entry at `position` is over-declared, and declared beyond the end of the list. -/
def Overreaches (d : Draft) (position : Nat) : Prop :=
  AccessList.Overreaches headerSize d.size d.items position

/-- The layout of a list that declares true sizes only and leaves nothing behind its entries. -/
def honest (list : AccessList) : Draft :=
  ⟨list.revision, headerSize + entriesSize list.entries, list.entries.map Placed.honest, 0, 0, 0⟩

theorem length_bytes (d : Draft) :
    d.bytes.length = headerSize + (d.items.flatMap Placed.bytes).length := by
  simp only [bytes, List.length_cons, List.length_append, Octets.length_little, headerSize]
  omega

end Draft

/-- **A list is written with true sizes only.** -/
theorem encode_eq_honest (list : AccessList) :
    list.encode = (Draft.honest list).bytes ∧
      ∀ p ∈ (Draft.honest list).items, p.declared = p.entry.size ∧ p.padding = [] := by
  have hentries : list.entries.flatMap Entry.encode
      = (list.entries.map Placed.honest).flatMap Placed.bytes := by
    rw [List.flatMap_map]
    refine List.flatMap_congr fun entry _ => ?_
    exact (List.append_nil _).symm
  refine ⟨?_, ?_⟩
  · rw [encode, hentries, count, Draft.bytes, Draft.honest, List.length_map]
    rfl
  · intro p hp
    obtain ⟨entry, -, rfl⟩ := List.mem_map.1 hp
    exact ⟨rfl, rfl⟩

/-! ### The cursor -/

/-- The entry in front is read, and the cursor stands at the front of the next one. -/
theorem decodeEntries_placed {revision : UInt8} {p : Placed} (h : p.IsProper)
    (hstride : stride revision p.declared p.entry.size = p.bytes.length) {rest : List UInt8}
    (hroom : p.declared ≤ (p.bytes ++ rest).length) {count start total : Nat}
    (hfit : total + p.entry.size ≤ maxSize) :
    decodeEntries revision (count + 1) start total (p.bytes ++ rest)
      = (decodeEntries revision count (start + p.bytes.length) (total + p.entry.size) rest).map
          (p.entry :: ·) := by
  rw [decodeEntries_succ (Placed.decodeHeader_append h rest) hroom (Placed.declared_mod h)
    (Placed.decode_append h hroom) hfit]
  dsimp only
  rw [hstride, List.drop_left]

/-- An entry that is declared beyond the end of the list is refused before it is looked at. -/
theorem decodeEntries_beyondEnd {p : Placed} (h : p.IsProper) {rest : List UInt8}
    (hroom : (p.bytes ++ rest).length < p.declared) (revision : UInt8) (count start total : Nat) :
    decodeEntries revision (count + 1) start total (p.bytes ++ rest)
      = .error (.list .entryBeyondEnd start) := by
  rw [decodeEntries, Placed.decodeHeader_append h rest]
  dsimp only
  rw [if_pos (Octets.split?_eq_none_iff.2 hroom)]

theorem not_overreaches_nil (start size position : Nat) : ¬Overreaches start size [] position := by
  rintro ⟨before, p, after, hitems, -⟩
  cases before <;> cases hitems

theorem overreaches_cons {start size position : Nat} {p : Placed} {items : List Placed} :
    Overreaches start size (p :: items) position ↔
      (p.overdeclared = true ∧ position = start ∧ size < start + p.declared) ∨
        Overreaches (start + p.bytes.length) size items position := by
  constructor
  · rintro ⟨before, q, after, hitems, hover, rfl, hend⟩
    cases before with
    | nil =>
        cases hitems
        exact .inl ⟨hover, rfl, hend⟩
    | cons head before =>
        cases hitems
        rw [List.flatMap_cons, List.length_append, ← Nat.add_assoc] at hend ⊢
        exact .inr ⟨before, q, after, rfl, hover, rfl, hend⟩
  · rintro (⟨hover, rfl, hend⟩ | ⟨before, q, after, rfl, hover, rfl, hend⟩)
    · exact ⟨[], p, items, rfl, hover, rfl, hend⟩
    · refine ⟨p :: before, q, after, rfl, hover, ?_, hend⟩
      rw [List.flatMap_cons, List.length_append, ← Nat.add_assoc]

/-- An entry has the bytes that it declares, unless it is over-declared beyond the end. -/
theorem declared_le {p : Placed} {rest : List UInt8} {start size : Nat}
    (hsize : start + (p.bytes ++ rest).length = size)
    (hend : ¬(p.overdeclared = true ∧ size < start + p.declared)) :
    p.declared ≤ (p.bytes ++ rest).length := by
  cases hover : p.overdeclared with
  | false =>
      rw [Placed.declared, hover, if_neg Bool.false_ne_true, List.length_append, p.length_bytes]
      omega
  | true =>
      have hle : ¬size < start + p.declared := fun hlt => hend ⟨hover, hlt⟩
      omega

/-- Behind an entry as much of the list is left as the cursor says. -/
theorem length_rest {p : Placed} {rest : List UInt8} {start size : Nat}
    (hsize : start + (p.bytes ++ rest).length = size) :
    start + p.bytes.length + rest.length = size := by
  rw [← hsize, List.length_append, Nat.add_assoc]

/-- The true sizes of the entries are covered by the bytes that they are placed with. -/
theorem entriesSize_le (items : List Placed) :
    entriesSize (items.map Placed.entry) ≤ (items.flatMap Placed.bytes).length := by
  induction items with
  | nil => exact Nat.le_refl 0
  | cons p items ih =>
      rw [List.map_cons, entriesSize_cons, List.flatMap_cons, List.length_append, p.length_bytes]
      omega

variable {revision : UInt8} {items : List Placed} {slack : List UInt8} {start total size : Nat}

/-- **All entries are read**, if the reader goes from one to the next and none is declared beyond
the end. -/
theorem decodeEntries_items (h : ∀ p ∈ items, p.IsProper)
    (hstride : ∀ p ∈ items, stride revision p.declared p.entry.size = p.bytes.length)
    (hsize : start + (items.flatMap Placed.bytes ++ slack).length = size)
    (hfit : total + entriesSize (items.map Placed.entry) ≤ maxSize)
    (hreach : ∀ position, ¬Overreaches start size items position) :
    decodeEntries revision items.length start total (items.flatMap Placed.bytes ++ slack)
      = .ok (items.map Placed.entry) := by
  -- The cursor is at `start`, and from there the bytes reach to `size`.
  induction items generalizing start total with
  | nil => rfl
  | cons p items ih =>
      have hhead : ¬(p.overdeclared = true ∧ size < start + p.declared) := fun hend =>
        hreach start (overreaches_cons.2 (.inl ⟨hend.1, rfl, hend.2⟩))
      have hothers : ∀ position, ¬Overreaches (start + p.bytes.length) size items position :=
        fun position hend => hreach position (overreaches_cons.2 (.inr hend))
      rw [List.map_cons, entriesSize_cons, ← Nat.add_assoc] at hfit
      rw [List.flatMap_cons, List.append_assoc] at hsize
      have hrest := ih (fun q hq => h q (List.mem_cons_of_mem _ hq))
        (fun q hq => hstride q (List.mem_cons_of_mem _ hq)) (length_rest hsize) hfit hothers
      have hentry : total + p.entry.size ≤ maxSize := Nat.le_trans (Nat.le_add_right _ _) hfit
      rw [List.flatMap_cons, List.append_assoc, List.length_cons,
        decodeEntries_placed (h p (List.mem_cons_self ..)) (hstride p (List.mem_cons_self ..))
          (declared_le hsize hhead) hentry, hrest]
      rfl

/-- **An entry that is declared beyond the end makes the list unreadable**, whatever stands before
and behind it; the first such entry is reported. -/
theorem decodeEntries_overreaching (h : ∀ p ∈ items, p.IsProper)
    (hstride : ∀ p ∈ items, stride revision p.declared p.entry.size = p.bytes.length)
    (hsize : start + (items.flatMap Placed.bytes ++ slack).length = size)
    (hfit : total + entriesSize (items.map Placed.entry) ≤ maxSize)
    (hreach : ∃ position, Overreaches start size items position) :
    ∃ position, Overreaches start size items position ∧
      decodeEntries revision items.length start total (items.flatMap Placed.bytes ++ slack)
        = .error (.list .entryBeyondEnd position) := by
  induction items generalizing start total with
  | nil =>
      obtain ⟨position, hposition⟩ := hreach
      exact absurd hposition (not_overreaches_nil start size position)
  | cons p items ih =>
      have hp := h p (List.mem_cons_self ..)
      rw [List.map_cons, entriesSize_cons, ← Nat.add_assoc] at hfit
      rw [List.flatMap_cons, List.append_assoc] at hsize ⊢
      by_cases hend : p.overdeclared = true ∧ size < start + p.declared
      · exact ⟨start, overreaches_cons.2 (.inl ⟨hend.1, rfl, hend.2⟩),
          decodeEntries_beyondEnd hp (by omega) revision items.length start total⟩
      · -- The entry in front is within the list, so it is one behind it that is not.
        obtain ⟨far, hfar⟩ := hreach
        have hothers : Overreaches (start + p.bytes.length) size items far :=
          (overreaches_cons.1 hfar).resolve_left fun hhead => hend ⟨hhead.1, hhead.2.2⟩
        obtain ⟨position, hposition, hrest⟩ := ih (fun q hq => h q (List.mem_cons_of_mem _ hq))
          (fun q hq => hstride q (List.mem_cons_of_mem _ hq)) (length_rest hsize) hfit ⟨far, hothers⟩
        have hentry : total + p.entry.size ≤ maxSize := Nat.le_trans (Nat.le_add_right _ _) hfit
        refine ⟨position, overreaches_cons.2 (.inr hposition), ?_⟩
        rw [List.length_cons, decodeEntries_placed hp (hstride p (List.mem_cons_self ..))
          (declared_le hsize hend) hentry, hrest]
        rfl

/-! ### The whole list -/

theorem four_mul_length_items_le (items : List Placed) :
    4 * items.length ≤ (items.flatMap Placed.bytes).length := by
  have hcount := four_mul_length_le (items.map Placed.entry)
  rw [List.length_map] at hcount
  exact Nat.le_trans hcount (entriesSize_le items)

namespace Draft

variable {d : Draft}

theorem decodeHeader_append (h : d.IsProper) (rest : List UInt8) :
    Header.decode? (d.bytes ++ rest) = some ⟨d.revision, d.size, d.items.length⟩ := by
  have hcount := four_mul_length_items_le d.items
  have hcovers := h.covers
  have hbounded := h.bounded
  rw [length_bytes] at hcovers
  have hsize : d.size % 65536 = d.size := Nat.mod_eq_of_lt (by omega)
  have hitems : d.items.length % 65536 = d.items.length := Nat.mod_eq_of_lt (by omega)
  simp [Header.decode?, bytes, hsize, hitems, Octets.split?]

/-- The true sizes of the entries fit in a list. -/
theorem headerSize_add_entriesSize_le (h : d.IsProper) :
    headerSize + entriesSize (d.items.map Placed.entry) ≤ maxSize := by
  have hentries := entriesSize_le d.items
  have hcovers := h.covers
  have hbounded := h.bounded
  rw [length_bytes] at hcovers
  rw [maxSize]
  omega

/-- The reader of a list looks at the entries and at the slack that the size covers. -/
theorem decode_append (h : d.IsProper) {rest : List UInt8}
    (havailable : d.size ≤ (d.bytes ++ rest).length) :
    ∃ slack : List UInt8, headerSize + (d.items.flatMap Placed.bytes ++ slack).length = d.size ∧
      decode (d.bytes ++ rest)
        = (decodeEntries d.revision d.items.length headerSize headerSize
            (d.items.flatMap Placed.bytes ++ slack)).map (⟨d.revision, ·⟩) := by
  have hcovers := h.covers
  have hlength := d.length_bytes
  let slack := rest.take (d.size - d.bytes.length)
  have hslack : slack.length = d.size - d.bytes.length := by
    rw [List.length_append] at havailable
    exact List.length_take_of_le (by omega)
  have hscope : (d.bytes ++ slack).length = d.size := by
    rw [List.length_append, hslack]
    omega
  have hcut : Octets.split? d.size (d.bytes ++ rest)
      = some (d.bytes ++ slack, rest.drop (d.size - d.bytes.length)) := by
    refine Octets.split?_eq_some_iff.2 ⟨?_, hscope⟩
    rw [List.append_assoc, List.take_append_drop]
  have hbody : (d.bytes ++ slack).drop headerSize = d.items.flatMap Placed.bytes ++ slack := rfl
  have hlong : ¬d.size < headerSize := by omega
  refine ⟨slack, ?_, ?_⟩
  · rw [List.length_append, hslack]
    omega
  · rw [decode, decodeHeader_append h]
    dsimp only
    rw [hcut]
    dsimp only
    rw [if_neg hlong, hbody]
    cases decodeEntries d.revision d.items.length headerSize headerSize
      (d.items.flatMap Placed.bytes ++ slack) <;> rfl

/-- In a directory service list the reader steps over what is left behind an entry. -/
theorem stride_of_isPadded (hrevision : d.revision = directoryRevision) (h : d.IsPadded) :
    ∀ p ∈ d.items, stride d.revision p.declared p.entry.size = p.bytes.length := by
  intro p hp
  rw [stride, if_pos hrevision, Placed.declared, Placed.length_bytes, h p hp]

/-- In any other list the reader goes by the true sizes, and there is nothing else. -/
theorem stride_of_isTight (hrevision : d.revision ≠ directoryRevision) (h : d.IsTight) :
    ∀ p ∈ d.items, stride d.revision p.declared p.entry.size = p.bytes.length := by
  intro p hp
  rw [stride, if_neg hrevision, Placed.length_bytes, h p hp]
  rfl

/-- What is left behind the entries is enough for what they declare. -/
theorem not_overreaches_of_isPadded (h : d.IsProper) (hpadded : d.IsPadded) (position : Nat) :
    ¬d.Overreaches position := by
  rintro ⟨before, p, after, hitems, -, rfl, hend⟩
  have hp : p ∈ d.items := by
    rw [hitems]
    exact List.mem_append_right _ (List.mem_cons_self ..)
  have hdeclared : p.declared = p.bytes.length := by
    rw [Placed.declared, Placed.length_bytes, hpadded p hp]
  have hcovers := h.covers
  rw [length_bytes, hitems, List.flatMap_append, List.flatMap_cons, List.length_append,
    List.length_append] at hcovers
  omega

end Draft

/-- **Over-declared entries are read for what they are**, or the list is refused.  In a directory
service list with the declared bytes left behind them, and in any other list with nothing behind
them and none declared beyond the end, the list that is meant is read; if some entry of a list of
the latter kind is declared beyond the end, the list is damaged where such an entry stands.  What
was read is written with true sizes. -/
theorem decodeAt_draft {d : Draft} (h : d.IsProper) (front rest : List UInt8)
    (havailable : d.size ≤ (d.bytes ++ rest).length) :
    (d.revision = 4 → d.IsPadded →
      decodeAt (front ++ d.bytes ++ rest) front.length = .ok d.list) ∧
    (d.revision ≠ 4 → d.IsTight → (∀ position, ¬d.Overreaches position) →
      decodeAt (front ++ d.bytes ++ rest) front.length = .ok d.list) ∧
    (d.revision ≠ 4 → d.IsTight → (∃ position, d.Overreaches position) →
      ∃ position, d.Overreaches position ∧
        decodeAt (front ++ d.bytes ++ rest) front.length
          = .error (.list .entryBeyondEnd (front.length + position))) ∧
    (d.list.encode = (Draft.honest d.list).bytes ∧
      ∀ p ∈ (Draft.honest d.list).items, p.declared = p.entry.size ∧ p.padding = []) := by
  obtain ⟨slack, hslack, hdecode⟩ := Draft.decode_append h havailable
  have hfit := Draft.headerSize_add_entriesSize_le h
  have hat : decodeAt (front ++ d.bytes ++ rest) front.length
      = (decode (d.bytes ++ rest)).mapError (Error.shift front.length) := by
    rw [decodeAt, Decoder.startingAt, List.append_assoc, List.drop_left]
  rw [hat, hdecode]
  refine ⟨?_, ?_, ?_, encode_eq_honest d.list⟩
  · intro hrevision hpadded
    rw [decodeEntries_items h.items (Draft.stride_of_isPadded hrevision hpadded) hslack hfit
      (Draft.not_overreaches_of_isPadded h hpadded)]
    rfl
  · intro hrevision htight hreach
    rw [decodeEntries_items h.items (Draft.stride_of_isTight hrevision htight) hslack hfit hreach]
    rfl
  · intro hrevision htight hreach
    obtain ⟨position, hposition, herror⟩ := decodeEntries_overreaching h.items
      (Draft.stride_of_isTight hrevision htight) hslack hfit hreach
    refine ⟨position, hposition, ?_⟩
    rw [herror]
    rfl

/-- An over-declared object entry in front of a compound entry. -/
def mixedDraft (revision : UInt8) (size : Nat) (padding : List UInt8) : Draft :=
  ⟨revision, size,
    [⟨Entry.everyoneObject, true, padding⟩, Placed.honest Entry.everyoneCompound], 0, 0, 0⟩

theorem isProper_mixedDraft {revision : UInt8} {size : Nat} {padding : List UInt8}
    (hcovers : 56 + padding.length ≤ size) (hbounded : size ≤ 65535) :
    (mixedDraft revision size padding).IsProper := by
  have hmade : Entry.ofObject .none
      ⟨.allow, false, 1, Descriptor.everyone, []⟩ none none
      = .ok Entry.everyoneObject := rfl
  refine ⟨?_, ?_, hbounded⟩
  · intro p hp
    rcases List.mem_pair.1 hp with rfl | rfl
    · exact ⟨.object hmade, fun _ => rfl⟩
    · exact ⟨.compound _ _ _, fun hover => by cases hover⟩
  · have hobject : Entry.everyoneObject.size = 24 := rfl
    have hcompound : Entry.everyoneCompound.size = 24 := rfl
    have hlength : (mixedDraft revision size padding).bytes.length = 56 + padding.length := by
      rw [Draft.length_bytes]
      simp only [mixedDraft, List.flatMap_cons, List.flatMap_nil, List.length_append,
        Placed.length_bytes, Placed.honest, List.length_nil, hobject, hcompound, headerSize]
      omega
    rw [hlength]
    exact hcovers

/-- With its bytes behind it in a directory service list, overlapping with its neighbour and the
slack in another list, and declared beyond the end of that list. -/
theorem decodeAt_draft_mixed :
    decodeAt ([1] ++ (mixedDraft 4 88 (List.replicate 32 7)).bytes ++ [9]) 1
        = .ok ⟨4, [Entry.everyoneObject, Entry.everyoneCompound]⟩ ∧
      decodeAt ([1] ++ (mixedDraft 2 64 []).bytes ++ List.replicate 8 6) 1
        = .ok ⟨2, [Entry.everyoneObject, Entry.everyoneCompound]⟩ ∧
      ∃ position, (mixedDraft 2 60 []).Overreaches position ∧
        decodeAt ([1] ++ (mixedDraft 2 60 []).bytes ++ List.replicate 8 6) 1
          = .error (.list .entryBeyondEnd (1 + position)) := by
  have hpadded : (mixedDraft 4 88 (List.replicate 32 7)).IsPadded := by
    intro p hp
    rcases List.mem_pair.1 hp with rfl | rfl <;> rfl
  have htight : ∀ size, (mixedDraft 2 size []).IsTight := by
    intro size p hp
    rcases List.mem_pair.1 hp with rfl | rfl <;> rfl
  have hwithin : ∀ position, ¬(mixedDraft 2 64 []).Overreaches position := by
    intro position hreach
    rcases overreaches_cons.1 hreach with ⟨-, -, hend⟩ | hreach
    · exact absurd hend (by decide)
    · rcases overreaches_cons.1 hreach with ⟨hover, -⟩ | hreach
      · cases hover
      · exact not_overreaches_nil _ _ _ hreach
  have hbeyond : (mixedDraft 2 60 []).Overreaches 8 :=
    overreaches_cons.2 (.inl ⟨rfl, rfl, by decide⟩)
  exact ⟨(decodeAt_draft (isProper_mixedDraft (by decide) (by decide)) [1] [9] (by decide)).1
      rfl hpadded,
    (decodeAt_draft (isProper_mixedDraft (by decide) (by decide)) [1] (List.replicate 8 6)
      (by decide)).2.1 (by decide) (htight 64) hwithin,
    (decodeAt_draft (isProper_mixedDraft (by decide) (by decide)) [1] (List.replicate 8 6)
      (by decide)).2.2.1 (by decide) (htight 60) ⟨8, hbeyond⟩⟩

end AccessList

end SecurityDescriptor
