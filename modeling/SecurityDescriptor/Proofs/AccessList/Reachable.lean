/-
**Every list that can be had is well-formed.**

A list comes from entries, from bytes or from text, and entries can be put into it, taken out of it
and exchanged afterwards.  Whatever adds bytes checks the size first, and whatever takes bytes away
needs no check, so every list fits in its size field.  The entries of such a list are entries that
can be had by themselves.

Main definitions:

* `AccessList.Reachable` — the lists that can be had;
* `AccessList.Edit`, `AccessList.Edit.attempt`, `AccessList.Edit.apply` — an edit in place, which may
  be refused.

Main results:

* `AccessList.insert_eq_ok`, `AccessList.remove_eq_ok`, `AccessList.replace_eq_ok` — what a change
  does to the entries and to the size;
* `AccessList.Reachable.entries` — the entries of a list that can be had can be had;
* `AccessList.Reachable.wellFormed` — **every list that can be had is well-formed**;
* `AccessList.Edit.reachable_apply` — an edit makes a list that can be had out of one.
-/

import Mathlib.Data.List.InsertIdx
import SecurityDescriptor.AccessList.Text
import SecurityDescriptor.Proofs.AccessList.Layout
import SecurityDescriptor.Proofs.Entry.Reachable

set_option relaxedAutoImplicit false
set_option autoImplicit false

namespace SecurityDescriptor

namespace AccessList

/-- **The lists that can be had**: without entries, from entries, from bytes, from text, and by
changing the entries of a list. -/
inductive Reachable : AccessList → Prop
  | empty (revision : UInt8) : Reachable (empty revision)
  | ofEntries {revision : UInt8} {entries : List Entry} {list : AccessList}
      (hentries : ∀ entry ∈ entries, entry.Reachable)
      (h : ofEntries revision entries = .ok list) : Reachable list
  | decoded {bytes : List UInt8} {offset : Nat} {list : AccessList}
      (h : decodeAt bytes offset = .ok list) : Reachable list
  | parsed {text : List Char} {list : AccessList} (h : parse text = .ok list) : Reachable list
  | inserted {list changed : AccessList} {index : Nat} {entry : Entry} (hlist : Reachable list)
      (hentry : entry.Reachable) (h : list.insert index entry = .ok changed) : Reachable changed
  | pushed {list changed : AccessList} {entry : Entry} (hlist : Reachable list)
      (hentry : entry.Reachable) (h : list.push entry = .ok changed) : Reachable changed
  | removed {list changed : AccessList} {index : Nat} {entry : Entry} (hlist : Reachable list)
      (h : list.remove index = .ok (entry, changed)) : Reachable changed
  | replaced {list changed : AccessList} {index : Nat} {entry old : Entry} (hlist : Reachable list)
      (hentry : entry.Reachable) (h : list.replace index entry = .ok (old, changed)) :
      Reachable changed

/-! ### What a change does -/

theorem checkSize_eq_ok_iff {size : Nat} {u : Unit} :
    checkSize size = .ok u ↔ size ≤ maxSize := by
  unfold checkSize
  split
  · rename_i hlong
    constructor
    · intro h
      cases h
    · intro h
      exact absurd h (Nat.not_le_of_lt hlong)
  · rename_i hshort
    exact ⟨fun _ => Nat.le_of_not_lt hshort, fun _ => rfl⟩

theorem ofEntries_eq_ok_iff {revision : UInt8} {entries : List Entry} {list : AccessList} :
    ofEntries revision entries = .ok list
      ↔ headerSize + entriesSize entries ≤ maxSize ∧ list = ⟨revision, entries⟩ := by
  constructor
  · intro h
    obtain ⟨_, hcheck, hdone⟩ := Outcome.bind_eq_ok_iff.1 h
    cases hdone
    exact ⟨checkSize_eq_ok_iff.1 hcheck, rfl⟩
  · rintro ⟨hle, rfl⟩
    exact Outcome.bind_eq_ok_iff.2 ⟨(), checkSize_eq_ok_iff.2 hle, rfl⟩

/-- Putting an entry in adds its bytes, wherever it is put. -/
theorem entriesSize_insertIdx {entries : List Entry} {index : Nat} (h : index ≤ entries.length)
    (entry : Entry) :
    entriesSize (entries.insertIdx index entry) = entry.size + entriesSize entries := by
  induction entries generalizing index with
  | nil =>
      obtain rfl : index = 0 := Nat.le_zero.1 h
      exact entriesSize_cons entry []
  | cons head entries ih =>
      cases index with
      | zero => exact entriesSize_cons entry (head :: entries)
      | succ index =>
          have hrest := ih (Nat.le_of_succ_le_succ h)
          rw [List.insertIdx_succ_cons, entriesSize_cons, hrest, entriesSize_cons]
          omega

/-- Taking an entry out takes its bytes away. -/
theorem entriesSize_eraseIdx {entries : List Entry} {index : Nat} {entry : Entry}
    (h : entries[index]? = some entry) :
    entry.size + entriesSize (entries.eraseIdx index) = entriesSize entries := by
  induction entries generalizing index with
  | nil => cases h
  | cons head entries ih =>
      cases index with
      | zero =>
          cases h
          rw [List.eraseIdx_cons_zero, entriesSize_cons]
      | succ index =>
          have hrest := ih h
          rw [List.eraseIdx_cons_succ, entriesSize_cons, entriesSize_cons]
          omega

/-- Exchanging an entry exchanges its bytes. -/
theorem entriesSize_set {entries : List Entry} {index : Nat} {old : Entry}
    (h : entries[index]? = some old) (entry : Entry) :
    old.size + entriesSize (entries.set index entry) = entry.size + entriesSize entries := by
  induction entries generalizing index with
  | nil => cases h
  | cons head entries ih =>
      cases index with
      | zero =>
          cases h
          rw [List.set_cons_zero, entriesSize_cons, entriesSize_cons]
          omega
      | succ index =>
          have hrest := ih h
          rw [List.set_cons_succ, entriesSize_cons, entriesSize_cons]
          omega

/-- An entry is put in only if the list still fits. -/
theorem insert_eq_ok {list changed : AccessList} {index : Nat} {entry : Entry}
    (h : list.insert index entry = .ok changed) :
    changed.entries = list.entries.insertIdx index entry ∧ changed.size ≤ maxSize := by
  unfold insert at h
  split at h
  · cases h
  · rename_i hindex
    obtain ⟨_, hcheck, hdone⟩ := Outcome.bind_eq_ok_iff.1 h
    cases hdone
    have hle := checkSize_eq_ok_iff.1 hcheck
    rw [size] at hle
    refine ⟨rfl, ?_⟩
    rw [size_mk, entriesSize_insertIdx (Nat.le_of_not_lt hindex)]
    omega

theorem remove_eq_ok {list changed : AccessList} {index : Nat} {entry : Entry}
    (h : list.remove index = .ok (entry, changed)) :
    changed.entries = list.entries.eraseIdx index ∧ changed.size ≤ list.size := by
  unfold remove at h
  split at h
  · cases h
  · rename_i old hold
    cases h
    have hsize := entriesSize_eraseIdx hold
    refine ⟨rfl, ?_⟩
    rw [size_mk, size]
    omega

/-- An entry is exchanged only if the list still fits. -/
theorem replace_eq_ok {list changed : AccessList} {index : Nat} {entry old : Entry}
    (h : list.replace index entry = .ok (old, changed)) :
    changed.entries = list.entries.set index entry ∧ changed.size ≤ maxSize := by
  unfold replace at h
  split at h
  · cases h
  · rename_i found hfound
    obtain ⟨_, hcheck, hdone⟩ := Outcome.bind_eq_ok_iff.1 h
    cases hdone
    have hle := checkSize_eq_ok_iff.1 hcheck
    have hsize := entriesSize_set hfound entry
    rw [size] at hle
    refine ⟨rfl, ?_⟩
    rw [size_mk]
    omega

/-! ### Reading a list from text -/

/-- A list that is read from text is read entry by entry, and fits. -/
theorem parse_eq_ok_iff {text : List Char} {list : AccessList} :
    parse text = .ok list ↔ ∃ tokens, splitEntries text = .ok tokens ∧ tokens ≠ [] ∧
      List.Forall₂ (fun token entry => Entry.parse token = .ok entry) tokens list.entries ∧
      list.revision = revisionFor list.entries ∧ list.size ≤ maxSize := by
  constructor
  · intro h
    obtain ⟨tokens, htokens, h₁⟩ := Outcome.bind_eq_ok_iff.1 h
    split at h₁
    · cases h₁
    · rename_i hne
      obtain ⟨entries, hentries, h₂⟩ := Outcome.bind_eq_ok_iff.1 h₁
      obtain ⟨hle, rfl⟩ := ofEntries_eq_ok_iff.1 h₂
      exact ⟨tokens, htokens, hne, Outcome.mapM_eq_ok_iff.1 hentries, rfl, hle⟩
  · rintro ⟨tokens, htokens, hne, hread, hrevision, hle⟩
    obtain ⟨revision, entries⟩ := list
    rw [parse, htokens, Outcome.ok_bind, if_neg hne, Outcome.mapM_eq_ok_iff.2 hread,
      Outcome.ok_bind]
    exact ofEntries_eq_ok_iff.2 ⟨hle, by rw [← hrevision]⟩

/-! ### What can be had -/

/-- **The entries of a list that can be had can be had.** -/
theorem Reachable.entries {list : AccessList} (h : Reachable list) :
    ∀ entry ∈ list.entries, entry.Reachable := by
  induction h with
  | empty revision => exact fun _ hmem => (List.not_mem_nil hmem).elim
  | ofEntries hentries h =>
      obtain ⟨-, rfl⟩ := ofEntries_eq_ok_iff.1 h
      exact hentries
  | decoded h =>
      intro entry hentry
      -- An entry of a list is read with bytes behind it, which is one way to have an entry.
      obtain ⟨front, hfront⟩ :=
        (entries_of_decode (Decoder.startingAt_eq_ok_iff.1 h)).1 entry hentry
      have hat : Entry.decodeAt front 0 = .ok entry := Decoder.startingAt_eq_ok_iff.2 hfront
      exact .decoded hat
  | parsed h =>
      obtain ⟨tokens, -, -, hread, -, -⟩ := parse_eq_ok_iff.1 h
      intro entry hentry
      obtain ⟨token, -, htoken⟩ := Outcome.exists_mem_of_forall₂ hread hentry
      exact .parsed htoken
  | inserted _ hentry h ih =>
      intro other hother
      rw [(insert_eq_ok h).1] at hother
      rcases List.eq_or_mem_of_mem_insertIdx hother with rfl | hmem
      · exact hentry
      · exact ih other hmem
  | pushed _ hentry h ih =>
      intro other hother
      rw [(insert_eq_ok h).1] at hother
      rcases List.eq_or_mem_of_mem_insertIdx hother with rfl | hmem
      · exact hentry
      · exact ih other hmem
  | removed _ h ih =>
      intro other hother
      rw [(remove_eq_ok h).1] at hother
      exact ih other (List.mem_of_mem_eraseIdx hother)
  | replaced _ hentry h ih =>
      intro other hother
      rw [(replace_eq_ok h).1] at hother
      rcases List.mem_or_eq_of_mem_set hother with hmem | rfl
      · exact ih other hmem
      · exact hentry

theorem Reachable.size_le {list : AccessList} (h : Reachable list) : list.size ≤ maxSize := by
  induction h with
  | empty revision => exact Nat.le_of_ble_eq_true rfl
  | ofEntries _ h =>
      obtain ⟨hle, rfl⟩ := ofEntries_eq_ok_iff.1 h
      exact hle
  | decoded h => exact (entries_of_decode (Decoder.startingAt_eq_ok_iff.1 h)).2
  | parsed h =>
      obtain ⟨tokens, -, -, -, -, hle⟩ := parse_eq_ok_iff.1 h
      exact hle
  | inserted _ _ h _ => exact (insert_eq_ok h).2
  | pushed _ _ h _ => exact (insert_eq_ok h).2
  | removed _ h ih => exact Nat.le_trans (remove_eq_ok h).2 ih
  | replaced _ _ h _ => exact (replace_eq_ok h).2

/-- **Every list that can be had is well-formed.** -/
theorem Reachable.wellFormed {list : AccessList} (h : Reachable list) : list.WellFormed :=
  ⟨fun entry hentry => (h.entries entry hentry).wellFormed, h.size_le⟩

/-! ### Edits -/

/-- An edit of a list in place. -/
inductive Edit
  | insert (index : Nat) (entry : Entry)
  | push (entry : Entry)
  | remove (index : Nat)
  | replace (index : Nat) (entry : Entry)

namespace Edit

/-- The list behind an edit, unless the edit is refused. -/
def attempt (edit : Edit) (list : AccessList) : Except Error AccessList :=
  match edit with
  | .insert index entry => list.insert index entry
  | .push entry => list.push entry
  | .remove index => (list.remove index).map Prod.snd
  | .replace index entry => (list.replace index entry).map Prod.snd

/-- The list behind an edit; one that is refused leaves the list as it was. -/
def apply (edit : Edit) (list : AccessList) : AccessList :=
  match edit.attempt list with
  | .ok changed => changed
  | .error _ => list

/-- An edit puts only an entry in that can be had. -/
def IsProper : Edit → Prop
  | .insert _ entry | .push entry | .replace _ entry => entry.Reachable
  | .remove _ => True

theorem apply_of_error {edit : Edit} {list : AccessList} {error : Error}
    (h : edit.attempt list = .error error) : edit.apply list = list := by
  rw [apply, h]

theorem reachable_of_attempt {edit : Edit} (hedit : edit.IsProper) {list changed : AccessList}
    (hlist : list.Reachable) (h : edit.attempt list = .ok changed) : changed.Reachable := by
  cases edit with
  | insert index entry => exact .inserted hlist hedit h
  | push entry => exact .pushed hlist hedit h
  | remove index =>
      obtain ⟨⟨entry, other⟩, hremove, rfl⟩ := Outcome.map_eq_ok_iff.1 h
      exact .removed hlist hremove
  | replace index entry =>
      obtain ⟨⟨old, other⟩, hreplace, rfl⟩ := Outcome.map_eq_ok_iff.1 h
      exact .replaced hlist hedit hreplace

/-- **An edit makes a list that can be had out of one**, refused or not. -/
theorem reachable_apply {edit : Edit} (hedit : edit.IsProper) {list : AccessList}
    (hlist : list.Reachable) : (edit.apply list).Reachable := by
  unfold apply
  split
  · rename_i changed h
    exact reachable_of_attempt hedit hlist h
  · exact hlist

end Edit

end AccessList

end SecurityDescriptor
