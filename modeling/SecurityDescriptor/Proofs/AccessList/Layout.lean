/-
**A well-formed list is read back from its binary form.**

The invariant of a list is that its entries are well-formed and that all of it fits in the size
field.  An entry has at least four bytes, so the number of entries then fits in its field as well,
and nothing is cut off in the header.  The entries are written one after another at their true
sizes, which is also what they declare, so the reader steps from one to the next under every
revision.

Main definitions:

* `AccessList.WellFormed` — the invariant of a list.

Main results:

* `AccessList.count_lt` — the number of entries fits in its field;
* `AccessList.decodeEntries_succ`, `AccessList.decodeEntries_succ_eq_ok_iff`,
  `AccessList.decodeEntries_step` — reading one entry and then the others;
* `AccessList.decode_encode_append` — **a well-formed list is read back from its binary form**;
* `AccessList.entries_of_decode` — what is read was read entry by entry, and fits.
-/

import SecurityDescriptor.AccessList.Binary
import SecurityDescriptor.Proofs.Entry.Layout

set_option relaxedAutoImplicit false
set_option autoImplicit false

namespace SecurityDescriptor

namespace AccessList

/-- **The invariant of a list.** -/
structure WellFormed (list : AccessList) : Prop where
  entries : ∀ entry ∈ list.entries, entry.body.WellFormed
  size_le : list.size ≤ maxSize

/-! ### Sizes -/

theorem entriesSize_cons (entry : Entry) (entries : List Entry) :
    entriesSize (entry :: entries) = entry.size + entriesSize entries := rfl

theorem four_mul_length_le (entries : List Entry) : 4 * entries.length ≤ entriesSize entries := by
  induction entries with
  | nil => exact Nat.le_refl 0
  | cons entry entries ih =>
      have hentry := entry.headerSize_le_size
      rw [Entry.headerSize] at hentry
      rw [entriesSize_cons, List.length_cons]
      omega

/-- The number of entries of a list that fits in the size field fits in its own field. -/
theorem count_lt {list : AccessList} (h : list.size ≤ maxSize) : list.count < 65536 := by
  have hcount := four_mul_length_le list.entries
  simp only [size, headerSize, maxSize] at h
  rw [count]
  omega

/-! ### Reading what was written -/

/-- The entry in front is read, and then the others behind its stride. -/
theorem decodeEntries_succ {revision : UInt8} {bytes : List UInt8} {header : Entry.Header}
    {entry : Entry} (hheader : Entry.Header.decode? bytes = some header)
    (hlength : header.size ≤ bytes.length) (haligned : header.size % 4 = 0)
    (hread : Entry.decode bytes = .ok entry) {count start total : Nat}
    (hfit : total + entry.size ≤ maxSize) :
    decodeEntries revision (count + 1) start total bytes
      = (decodeEntries revision count (start + stride revision header.size entry.size)
          (total + entry.size) (bytes.drop (stride revision header.size entry.size))).map
            (entry :: ·) := by
  have hcut : Octets.split? header.size bytes ≠ none := fun hnone =>
    Nat.not_lt.2 hlength (Octets.split?_eq_none_iff.1 hnone)
  rw [decodeEntries, hheader]
  dsimp only
  rw [if_neg hcut, if_neg (fun hne => hne haligned), hread]
  simp only [Outcome.mapError_ok, Outcome.ok_bind, if_neg (Nat.not_lt.2 hfit)]
  cases decodeEntries revision count (start + stride revision header.size entry.size)
    (total + entry.size) (bytes.drop (stride revision header.size entry.size)) <;> rfl

/-- Entries are read exactly if the one in front is read and the others behind its stride are. -/
theorem decodeEntries_succ_eq_ok_iff {revision : UInt8} {count start total : Nat}
    {bytes : List UInt8} {entries : List Entry} :
    decodeEntries revision (count + 1) start total bytes = .ok entries
      ↔ ∃ header entry others, Entry.Header.decode? bytes = some header ∧
          header.size ≤ bytes.length ∧ Entry.decode bytes = .ok entry ∧
          total + entry.size ≤ maxSize ∧
          decodeEntries revision count (start + stride revision header.size entry.size)
            (total + entry.size) (bytes.drop (stride revision header.size entry.size))
              = .ok others ∧
          entries = entry :: others := by
  constructor
  · intro h
    rw [decodeEntries] at h
    split at h
    · cases h
    rename_i header hheader
    split at h
    · cases h
    rename_i hcut
    have hfits : header.size ≤ bytes.length := Nat.le_of_not_lt fun hlt =>
      hcut (Octets.split?_eq_none_iff.mpr hlt)
    split at h
    · cases h
    obtain ⟨entry, hentry, h⟩ := Outcome.bind_eq_ok_iff.mp h
    dsimp only at h
    split at h
    · cases h
    rename_i htotal
    obtain ⟨others, hothers, h⟩ := Outcome.bind_eq_ok_iff.mp h
    exact ⟨header, entry, others, hheader, hfits, Outcome.mapError_eq_ok_iff.mp hentry,
      Nat.le_of_not_lt htotal, hothers, (Outcome.pure_eq_ok_iff.mp h).symm⟩
  · rintro ⟨header, entry, others, hheader, hfits, hread, htotal, hothers, rfl⟩
    rw [decodeEntries_succ hheader hfits (Entry.aligned_of_decode hheader hread) hread htotal,
      hothers]
    rfl

/-- The entry in front is read, and then the others behind it. -/
theorem decodeEntries_step {revision : UInt8} {entry : Entry} (h : entry.body.WellFormed)
    {count start total : Nat} (hfit : total + entry.size ≤ maxSize) (rest : List UInt8) :
    decodeEntries revision (count + 1) start total (entry.encode ++ rest)
      = (decodeEntries revision count (start + entry.size) (total + entry.size) rest).map
          (entry :: ·) := by
  have hheader := Entry.Header.decode?_encode_append h rest
  have hlength : entry.size ≤ (entry.encode ++ rest).length := by
    rw [List.length_append, Entry.length_encode]
    exact Nat.le_add_right _ _
  have haligned := Entry.size_mod_of_wellFormed h
  have hdrop : (entry.encode ++ rest).drop entry.size = rest := by
    rw [← Entry.length_encode entry, List.drop_left]
  -- The declared size is the true one, so the revision makes no difference.
  have hstride : stride revision entry.size entry.size = entry.size := by
    rw [stride, ite_self]
  rw [decodeEntries_succ hheader hlength haligned (Entry.decode_encode_append h rest) hfit]
  dsimp only
  rw [hstride, hdrop]

/-- The entries are read back as long as they fit. -/
theorem decodeEntries_flatMap_encode (revision : UInt8) (start total : Nat) {entries : List Entry}
    (h : ∀ entry ∈ entries, entry.body.WellFormed)
    (hfit : total + entriesSize entries ≤ maxSize) (rest : List UInt8) :
    decodeEntries revision entries.length start total (entries.flatMap Entry.encode ++ rest)
      = .ok entries := by
  induction entries generalizing start total with
  | nil => rfl
  | cons entry entries ih =>
      rw [entriesSize_cons] at hfit
      have hrest := ih (start + entry.size) (total + entry.size)
        (fun other hother => h other (List.mem_cons_of_mem _ hother)) (by omega)
      rw [List.flatMap_cons, List.append_assoc, List.length_cons,
        decodeEntries_step (h entry (List.mem_cons_self ..)) (by omega), hrest]
      rfl

theorem Header.decode?_encode_append {list : AccessList} (h : list.size ≤ maxSize)
    (rest : List UInt8) :
    Header.decode? (list.encode ++ rest) = some ⟨list.revision, list.size, list.count⟩ := by
  have hsize : list.size % 65536 = list.size :=
    Nat.mod_eq_of_lt (Nat.lt_succ_of_le h)
  have hcount : list.count % 65536 = list.count := Nat.mod_eq_of_lt (count_lt h)
  simp [Header.decode?, encode, List.append_assoc, hsize, hcount]

/-- **A well-formed list is read back from its binary form**, whatever follows. -/
theorem decode_encode_append {list : AccessList} (h : list.WellFormed) (rest : List UInt8) :
    decode (list.encode ++ rest) = .ok list := by
  have hcut : Octets.split? list.size (list.encode ++ rest) = some (list.encode, rest) :=
    Octets.split?_append rest (length_encode list)
  have hbody : list.encode.drop headerSize = list.entries.flatMap Entry.encode := rfl
  have hentries := decodeEntries_flatMap_encode list.revision headerSize headerSize h.entries
    h.size_le []
  rw [List.append_nil] at hentries
  have hlong : ¬list.size < headerSize := Nat.not_lt.2 (Nat.le_add_right _ _)
  rw [decode, Header.decode?_encode_append h.size_le]
  dsimp only
  rw [hcut]
  dsimp only
  rw [if_neg hlong, hbody, count, hentries, Outcome.ok_bind]
  rfl

/-! ### What is read -/

/-- What is read was read entry by entry, and its size was checked on the way. -/
theorem entries_of_decodeEntries {revision : UInt8} {count start total : Nat}
    {bytes : List UInt8} {entries : List Entry} (hfit : total ≤ maxSize)
    (h : decodeEntries revision count start total bytes = .ok entries) :
    (∀ entry ∈ entries, ∃ front, Entry.decode front = .ok entry) ∧
      total + entriesSize entries ≤ maxSize := by
  -- The total carries the bound: it is checked before the next entry is read.
  induction count generalizing start total bytes entries with
  | zero =>
      cases h
      exact ⟨fun _ h => (List.not_mem_nil h).elim, hfit⟩
  | succ count ih =>
      obtain ⟨header, entry, others, -, -, hentry, htotal, hothers, rfl⟩ :=
        decodeEntries_succ_eq_ok_iff.1 h
      obtain ⟨hread, hle⟩ := ih htotal hothers
      refine ⟨?_, ?_⟩
      · intro other hother
        rcases List.mem_cons.1 hother with rfl | hother
        · exact ⟨bytes, hentry⟩
        · exact hread other hother
      · rw [entriesSize_cons]
        omega

theorem entries_of_decode {bytes : List UInt8} {list : AccessList} (h : decode bytes = .ok list) :
    (∀ entry ∈ list.entries, ∃ front, Entry.decode front = .ok entry) ∧ list.size ≤ maxSize := by
  unfold decode at h
  split at h
  · cases h
  · split at h
    · cases h
    · split at h
      · cases h
      · obtain ⟨entries, hentries, h₁⟩ := Outcome.bind_eq_ok_iff.1 h
        cases h₁
        exact entries_of_decodeEntries (by decide) hentries

end AccessList

end SecurityDescriptor
