/-
**Edits of a list in place, along whole runs.**

An edit of a list has a meaning that does not mention bytes: an entry is put between those before
and those behind its place, or taken out from between them.  The list carries two numbers of 16 bits
about its bytes, and an edit that would make them too great is refused.  This module says exactly
what comes of an edit in place: it does what it means if its index is valid and the result fits, and
in every other case it reports what is out of range and leaves the list as it was.

That both numbers fit is an invariant of one edit, hence of every run.  More than the ceiling is
true: every entry takes a multiple of four bytes, so a list never reaches the last three of the
65535 bytes that its size field could hold.

Main definitions:

* `AccessList.Edit.Means`, `AccessList.Edit.HasPlace` — what an edit means for a sequence of
  entries, and when its index is valid;
* `AccessList.Edit.perform`, `AccessList.run` — an edit in place, and the list behind a run of them;
* `AccessList.Edit.AllOrNothing` — **an edit does what it means or nothing**;
* `AccessList.Bounded` — **the bounds of a list**;
* `AccessList.Origin` — where a run starts.

Main results:

* `AccessList.Edit.exists_means_iff` — an edit has a meaning exactly where its index is valid;
* `AccessList.Edit.allOrNothing` — one edit does what it means or nothing;
* `AccessList.Reachable.bounded` — every list that can be had is within the bounds;
* `AccessList.Origin.bounded_run` — **both hold along every run of edits**.
-/

import Mathlib.Algebra.GroupWithZero.Nat
import SecurityDescriptor.AccessList.InPlace
import SecurityDescriptor.Proofs.AccessList.Reachable

set_option relaxedAutoImplicit false
set_option autoImplicit false

namespace SecurityDescriptor

namespace AccessList

/-! ### What an edit means -/

namespace Edit

/-- **What an edit means** for a sequence of entries, told by what stands before and behind its
place: the sequence afterwards, and the entry that is handed out. -/
inductive Means : Edit → List Entry → List Entry → Option Entry → Prop
  | insert (before after : List Entry) (entry : Entry) :
      Means (.insert before.length entry) (before ++ after) (before ++ entry :: after) none
  | push (entries : List Entry) (entry : Entry) :
      Means (.push entry) entries (entries ++ [entry]) none
  | remove (before after : List Entry) (old : Entry) :
      Means (.remove before.length) (before ++ old :: after) (before ++ after) (some old)
  | replace (before after : List Entry) (old entry : Entry) :
      Means (.replace before.length entry) (before ++ old :: after) (before ++ entry :: after)
        (some old)

/-- The index of an edit is valid among `count` entries. -/
def HasPlace (count : Nat) : Edit → Prop
  | .insert index _ => index ≤ count
  | .push _ => True
  | .remove index | .replace index _ => index < count

/-- A place in a sequence has what stands before it and behind it. -/
theorem exists_split {entries : List Entry} {index : Nat} (h : index ≤ entries.length) :
    ∃ before after, entries = before ++ after ∧ before.length = index :=
  ⟨entries.take index, entries.drop index, (List.take_append_drop index entries).symm,
    List.length_take_of_le h⟩

theorem exists_split_cons {entries : List Entry} {index : Nat} (h : index < entries.length) :
    ∃ before old after, entries = before ++ old :: after ∧ before.length = index := by
  obtain ⟨before, after, rfl, rfl⟩ := exists_split (Nat.le_of_lt h)
  cases after with
  | nil => simp at h
  | cons old after => exact ⟨before, old, after, rfl, rfl⟩

/-- **An edit has a meaning exactly where its index is valid.** -/
theorem exists_means_iff {edit : Edit} {entries : List Entry} :
    (∃ after taken, edit.Means entries after taken) ↔ edit.HasPlace entries.length := by
  constructor
  · rintro ⟨after, taken, h⟩
    cases h with
    | insert before after entry => simp [HasPlace]
    | push entry => trivial
    | remove before after old => simp [HasPlace]
    | replace before after old entry => simp [HasPlace]
  · intro h
    cases edit with
    | insert index entry =>
        obtain ⟨before, after, rfl, rfl⟩ := exists_split h
        exact ⟨_, _, .insert before after entry⟩
    | push entry => exact ⟨_, _, .push entries entry⟩
    | remove index =>
        obtain ⟨before, old, after, rfl, rfl⟩ := exists_split_cons h
        exact ⟨_, _, .remove before after old⟩
    | replace index entry =>
        obtain ⟨before, old, after, rfl, rfl⟩ := exists_split_cons h
        exact ⟨_, _, .replace before after old entry⟩

end Edit

/-! ### Edits in place -/

theorem InPlace.run_map {α β : Type} (f : α → β) (program : InPlace α) (list : AccessList) :
    run (f <$> program) list = ((run program list).1.map f, (run program list).2) := by
  rw [run, ExceptT.run_map]
  rfl

namespace Edit

/-- The program of an edit, with the entry that it hands out. -/
def program : Edit → InPlace (Option Entry)
  | .insert index entry => (fun _ => none) <$> InPlace.insert index entry
  | .push entry => (fun _ => none) <$> InPlace.push entry
  | .remove index => some <$> InPlace.remove index
  | .replace index entry => some <$> InPlace.replace index entry

/-- What an edit in place comes to, and the list that it leaves behind. -/
def perform (edit : Edit) (list : AccessList) : Except Error (Option Entry) × AccessList :=
  edit.program.run list

theorem perform_insert (index : Nat) (entry : Entry) (list : AccessList) :
    (Edit.insert index entry).perform list =
      match list.insert index entry with
      | .ok changed => (.ok none, changed)
      | .error e => (.error e, list) := by
  rw [perform, program, InPlace.run_map, InPlace.run_insert]
  cases list.insert index entry <;> rfl

theorem perform_push (entry : Entry) (list : AccessList) :
    (Edit.push entry).perform list = (Edit.insert list.count entry).perform list := by
  simp only [perform, program, InPlace.run_map, InPlace.run_push]

theorem perform_remove (index : Nat) (list : AccessList) :
    (Edit.remove index).perform list =
      match list.remove index with
      | .ok (old, changed) => (.ok (some old), changed)
      | .error e => (.error e, list) := by
  rw [perform, program, InPlace.run_map, InPlace.run_remove]
  cases list.remove index <;> rfl

theorem perform_replace (index : Nat) (entry : Entry) (list : AccessList) :
    (Edit.replace index entry).perform list =
      match list.replace index entry with
      | .ok (old, changed) => (.ok (some old), changed)
      | .error e => (.error e, list) := by
  rw [perform, program, InPlace.run_map, InPlace.run_replace]
  cases list.replace index entry <;> rfl

/-- The list that an edit in place leaves behind is the one behind the edit. -/
theorem perform_snd (edit : Edit) (list : AccessList) :
    (edit.perform list).2 = edit.apply list := by
  cases edit with
  | insert index entry =>
      rw [perform_insert, apply, attempt]
      cases list.insert index entry <;> rfl
  | push entry =>
      rw [perform_push, perform_insert, apply, attempt, AccessList.push]
      cases list.insert list.count entry <;> rfl
  | remove index =>
      rw [perform_remove, apply, attempt]
      cases list.remove index <;> rfl
  | replace index entry =>
      rw [perform_replace, apply, attempt]
      cases list.replace index entry <;> rfl

end Edit

/-! ### What comes of an edit -/

theorem entriesSize_append (front back : List Entry) :
    entriesSize (front ++ back) = entriesSize front + entriesSize back := by
  induction front with
  | nil => simp [entriesSize]
  | cons entry front ih => simp only [List.cons_append, entriesSize_cons, ih, Nat.add_assoc]

/-- The sizes of the entries add up. -/
theorem entriesSize_eq_sum (entries : List Entry) :
    entriesSize entries = (entries.map Entry.size).sum := by
  induction entries with
  | nil => rfl
  | cons entry entries ih => simp [entriesSize_cons, ih]

theorem checkSize_eq_error {size : Nat} (h : maxSize < size) :
    checkSize size = .error (.outOfRange .listLength size maxSize) := if_pos h

theorem checkSize_eq_ok {size : Nat} (h : size ≤ maxSize) : checkSize size = .ok () :=
  if_neg (Nat.not_lt.2 h)

/-- A place between two parts of a sequence is where an entry is put in. -/
theorem insertIdx_split (before after : List Entry) (entry : Entry) :
    (before ++ after).insertIdx before.length entry = before ++ entry :: after := by
  induction before with
  | nil => rfl
  | cons head before ih =>
      rw [List.cons_append, List.length_cons, List.insertIdx_succ_cons, ih, List.cons_append]

namespace Edit

variable {edit : Edit} {list : AccessList} {after : List Entry} {taken : Option Entry}

/-- **What comes of an edit in place**: all that it means, or nothing. -/
structure AllOrNothing (edit : Edit) (list : AccessList) : Prop where
  /-- An edit has a meaning exactly where its index is valid. -/
  place : (∃ after taken, edit.Means list.entries after taken) ↔ edit.HasPlace list.count
  /-- If what it means fits, it is done, and the entry that was there is handed out. -/
  done : ∀ after taken, edit.Means list.entries after taken → size ⟨list.revision, after⟩ ≤ 65535 →
    edit.perform list = (.ok taken, ⟨list.revision, after⟩)
  /-- If it does not fit, the size is out of range, and the list is as it was. -/
  tooLong : ∀ after taken, edit.Means list.entries after taken →
    65535 < size ⟨list.revision, after⟩ →
      edit.perform list
        = (.error (.outOfRange .listLength (size ⟨list.revision, after⟩) 65535), list)
  /-- Where the index is not valid, it is out of range, and the list is as it was. -/
  misplaced : ¬edit.HasPlace list.count →
    ∃ index limit, edit.perform list = (.error (.outOfRange .entryIndex index limit), list)
  /-- Taking an entry out always fits. -/
  removal : ∀ index after taken, edit = .remove index → edit.Means list.entries after taken →
    size ⟨list.revision, after⟩ ≤ 65535

/-- What is left of the decision once the index is valid: whether the list that is meant fits. -/
def ifFits (list : AccessList) (after : List Entry) (taken : Option Entry) :
    Except Error (Option Entry) × AccessList :=
  match checkSize (size ⟨list.revision, after⟩) with
  | .ok _ => (.ok taken, ⟨list.revision, after⟩)
  | .error e => (.error e, list)

theorem perform_insert_split (revision : UInt8) (before after : List Entry) (entry : Entry) :
    (Edit.insert before.length entry).perform ⟨revision, before ++ after⟩
      = ifFits ⟨revision, before ++ after⟩ (before ++ entry :: after) none := by
  have hindex : ¬(before ++ after).length < before.length := by simp
  have hsize : size ⟨revision, before ++ after⟩ + entry.size
      = size ⟨revision, before ++ entry :: after⟩ := by
    simp only [size_mk, entriesSize_append, entriesSize_cons]
    omega
  rw [perform_insert, AccessList.insert, count, if_neg hindex, hsize, insertIdx_split, ifFits]
  cases checkSize (size ⟨revision, before ++ entry :: after⟩) <;> rfl

theorem perform_push_eq (list : AccessList) (entry : Entry) :
    (Edit.push entry).perform list = ifFits list (list.entries ++ [entry]) none := by
  have h := perform_insert_split list.revision list.entries [] entry
  rw [List.append_nil] at h
  rw [perform_push]
  exact h

/-- Taking an entry out makes a list smaller. -/
theorem size_remove_le (revision : UInt8) (before after : List Entry) (old : Entry) :
    size ⟨revision, before ++ after⟩ ≤ size ⟨revision, before ++ old :: after⟩ := by
  simp only [size_mk, entriesSize_append, entriesSize_cons]
  omega

theorem perform_remove_split {revision : UInt8} {before after : List Entry} {old : Entry}
    (hfit : size ⟨revision, before ++ old :: after⟩ ≤ maxSize) :
    (Edit.remove before.length).perform ⟨revision, before ++ old :: after⟩
      = ifFits ⟨revision, before ++ old :: after⟩ (before ++ after) (some old) := by
  have hfound : (before ++ old :: after)[before.length]? = some old := by simp
  have herase : (before ++ old :: after).eraseIdx before.length = before ++ after := by
    rw [List.eraseIdx_append_of_length_le (Nat.le_refl _), Nat.sub_self, List.eraseIdx_cons_zero]
  have hsmaller := size_remove_le revision before after old
  rw [perform_remove, AccessList.remove, get?, hfound, ifFits,
    checkSize_eq_ok (Nat.le_trans hsmaller hfit)]
  dsimp only
  rw [herase]

theorem perform_replace_split (revision : UInt8) (before after : List Entry) (old entry : Entry) :
    (Edit.replace before.length entry).perform ⟨revision, before ++ old :: after⟩
      = ifFits ⟨revision, before ++ old :: after⟩ (before ++ entry :: after) (some old) := by
  have hfound : (before ++ old :: after)[before.length]? = some old := by simp
  have hset : (before ++ old :: after).set before.length entry = before ++ entry :: after := by
    rw [List.set_append_right _ _ (Nat.le_refl _), Nat.sub_self, List.set_cons_zero]
  have hsize : size ⟨revision, before ++ old :: after⟩ - old.size + entry.size
      = size ⟨revision, before ++ entry :: after⟩ := by
    simp only [size_mk, entriesSize_append, entriesSize_cons]
    omega
  rw [perform_replace, AccessList.replace, get?, hfound]
  dsimp only
  rw [hsize, hset, ifFits]
  cases checkSize (size ⟨revision, before ++ entry :: after⟩) <;> rfl

/-- An edit that has a meaning asks only whether the list that is meant fits. -/
theorem perform_of_means (h : edit.Means list.entries after taken) (hlist : list.size ≤ maxSize) :
    edit.perform list = ifFits list after taken := by
  obtain ⟨revision, entries⟩ := list
  cases h with
  | insert before after entry => exact perform_insert_split revision before after entry
  | push entries entry => exact perform_push_eq ⟨revision, entries⟩ entry
  | remove before after old => exact perform_remove_split hlist
  | replace before after old entry => exact perform_replace_split revision before after old entry

theorem size_le_of_remove {index : Nat} (h : (Edit.remove index).Means list.entries after taken) :
    size ⟨list.revision, after⟩ ≤ list.size := by
  obtain ⟨revision, entries⟩ := list
  cases h with
  | remove before after old => exact size_remove_le revision before after old

theorem perform_of_not_hasPlace (h : ¬edit.HasPlace list.count) :
    ∃ index limit, edit.perform list = (.error (.outOfRange .entryIndex index limit), list) := by
  cases edit with
  | insert index entry =>
      refine ⟨index, list.count + 1 - 1, ?_⟩
      rw [perform_insert, AccessList.insert, if_pos (Nat.lt_of_not_le h)]
      rfl
  | push entry => exact absurd trivial h
  | remove index =>
      have hnone : list.get? index = none := List.getElem?_eq_none (Nat.le_of_not_lt h)
      refine ⟨index, list.count - 1, ?_⟩
      rw [perform_remove, AccessList.remove, hnone]
      rfl
  | replace index entry =>
      have hnone : list.get? index = none := List.getElem?_eq_none (Nat.le_of_not_lt h)
      refine ⟨index, list.count - 1, ?_⟩
      rw [perform_replace, AccessList.replace, hnone]
      rfl

/-- **An edit of a list that fits does what it means or nothing.** -/
theorem allOrNothing (edit : Edit) (hlist : list.size ≤ maxSize) : edit.AllOrNothing list := by
  refine ⟨exists_means_iff, ?_, ?_, perform_of_not_hasPlace, ?_⟩
  · intro after taken hmeans hfit
    rw [perform_of_means hmeans hlist, ifFits, checkSize_eq_ok hfit]
  · intro after taken hmeans hlong
    rw [perform_of_means hmeans hlist, ifFits, checkSize_eq_error hlong]
    rfl
  · rintro index after taken rfl hmeans
    exact Nat.le_trans (size_le_of_remove hmeans) hlist

end Edit

/-! ### The bounds of a list -/

/-- **The bounds of a list.** -/
structure Bounded (list : AccessList) : Prop where
  size_eq : list.size = 8 + (list.entries.map Entry.size).sum
  length_encode : list.encode.length = list.size
  aligned : list.size % 4 = 0
  size_le : list.size ≤ 65532
  count_le : list.count ≤ 16381
  /-- Neither number in the header is cut off when the list is written. -/
  header : ∀ rest : List UInt8,
    Header.decode? (list.encode ++ rest) = some ⟨list.revision, list.size, list.count⟩

theorem entriesSize_mod {entries : List Entry} (h : ∀ entry ∈ entries, entry.body.WellFormed) :
    entriesSize entries % 4 = 0 := by
  induction entries with
  | nil => rfl
  | cons entry entries ih =>
      obtain ⟨hentry, hrest⟩ := List.forall_mem_cons.1 h
      have haligned := Entry.size_mod_of_wellFormed hentry
      have hothers := ih hrest
      rw [entriesSize_cons]
      omega

/-- **Every list that can be had is within the bounds.** -/
theorem Reachable.bounded {list : AccessList} (h : list.Reachable) : list.Bounded := by
  have hwf := h.wellFormed
  have hmod := entriesSize_mod hwf.entries
  have hcount := four_mul_length_le list.entries
  have hle : headerSize + entriesSize list.entries ≤ 65535 := hwf.size_le
  simp only [headerSize] at hle
  refine ⟨?_, AccessList.length_encode list, ?_, ?_, ?_, Header.decode?_encode_append hwf.size_le⟩
  · rw [size, entriesSize_eq_sum, headerSize]
  · rw [size, headerSize]
    omega
  · rw [size, headerSize]
    omega
  · rw [count]
    omega

/-! ### Runs -/

/-- **Where a run of edits starts**: a list without entries, one from its entries, and those that
were read. -/
inductive Origin : AccessList → Prop
  | empty (revision : UInt8) : Origin (empty revision)
  | ofEntries {revision : UInt8} {entries : List Entry} {list : AccessList}
      (hentries : ∀ entry ∈ entries, entry.Reachable)
      (h : ofEntries revision entries = .ok list) : Origin list
  | decoded {bytes : List UInt8} {offset : Nat} {list : AccessList}
      (h : decodeAt bytes offset = .ok list) : Origin list
  | parsed {text : List Char} {list : AccessList} (h : parse text = .ok list) : Origin list

theorem Origin.reachable {list : AccessList} (h : Origin list) : list.Reachable := by
  cases h with
  | empty revision => exact .empty revision
  | ofEntries hentries h => exact .ofEntries hentries h
  | decoded h => exact .decoded h
  | parsed h => exact .parsed h

/-- The list behind a run of edits in place, refused or not. -/
def run (list : AccessList) (edits : List Edit) : AccessList :=
  edits.foldl (fun list edit => (edit.perform list).2) list

/-- **A run of edits makes a list that can be had out of one.** -/
theorem Reachable.run {list : AccessList} (h : list.Reachable) {edits : List Edit}
    (hedits : ∀ edit ∈ edits, edit.IsProper) : (list.run edits).Reachable := by
  induction edits generalizing list with
  | nil => exact h
  | cons edit edits ih =>
      obtain ⟨hedit, hrest⟩ := List.forall_mem_cons.1 hedits
      have hnext : (edit.perform list).2.Reachable := by
        rw [Edit.perform_snd]
        exact Edit.reachable_apply hedit h
      exact ih hnext hrest

/-- **Along every run of edits a list is within its bounds**, and whatever edit comes next does what
it means or nothing. -/
theorem Origin.bounded_run {list : AccessList} (h : Origin list) {edits : List Edit}
    (hedits : ∀ edit ∈ edits, edit.IsProper) :
    (list.run edits).Bounded ∧ ∀ edit : Edit, edit.AllOrNothing (list.run edits) := by
  have hreachable := h.reachable.run hedits
  exact ⟨hreachable.bounded, fun edit => edit.allOrNothing hreachable.wellFormed.size_le⟩

/-- An entry that leaves no room for another one in a list. -/
def bulky : Entry := ⟨.none, .custom 0x42 (List.replicate 65520 7)⟩

/-- The smallest entry there is. -/
def tiny : Entry := ⟨.none, .custom 0x42 []⟩

theorem size_bulky : bulky.size = 65524 := by
  rw [bulky, Entry.size, Body.size, List.length_replicate]

theorem reachable_bulky : bulky.Reachable := by
  have hcheck : Entry.checkExtra Entry.maxCustomExtra (List.replicate 65520 7) = .ok () :=
    Entry.checkExtra_eq_ok_iff.2 (by rw [List.length_replicate]; decide)
  have hmade : Entry.ofCustom 0x42 .none (List.replicate 65520 7) = .ok bulky := by
    rw [Entry.ofCustom, if_neg (by decide), hcheck, Outcome.ok_bind]
    rfl
  exact .custom hmade

/-- The fullest list there can be. -/
def brimful : AccessList := ⟨2, [bulky]⟩

theorem origin_brimful : Origin brimful := by
  have hsize : headerSize + entriesSize [bulky] ≤ maxSize := by
    rw [entriesSize_cons, size_bulky]
    decide
  refine .ofEntries ?_ (ofEntries_eq_ok_iff.2 ⟨hsize, rfl⟩)
  intro entry hentry
  rw [List.mem_singleton.1 hentry]
  exact reachable_bulky

/-- Nothing is put into a full list and an index too far is refused; the entry that fills the list
can still be exchanged and taken out. -/
theorem Origin.bounded_run_brimful :
    (brimful.run [.push tiny, .remove 1]).Bounded ∧
      (Edit.push tiny).perform (brimful.run [.push tiny, .remove 1])
        = (.error (.outOfRange .listLength 65536 65535), brimful) ∧
      (Edit.replace 0 tiny).perform (brimful.run [.push tiny, .remove 1])
        = (.ok (some bulky), ⟨2, [tiny]⟩) ∧
      (Edit.remove 0).perform (brimful.run [.push tiny, .remove 1])
        = (.ok (some bulky), ⟨2, []⟩) := by
  have htiny : tiny.Reachable := by
    have hmade : Entry.ofCustom 0x42 .none [] = .ok tiny := rfl
    exact .custom hmade
  have hproper : ∀ edit ∈ [Edit.push tiny, Edit.remove 1], edit.IsProper := by
    simp [Edit.IsProper, htiny]
  have hpushed : size ⟨2, [bulky, tiny]⟩ = 65536 := by
    rw [size_mk, entriesSize_cons, size_bulky]
    rfl
  obtain ⟨hbounded, hnext⟩ := origin_brimful.bounded_run hproper
  -- Both edits of the run are refused, so the list behind it is the one that it started from.
  have hfull : brimful.size ≤ maxSize := origin_brimful.reachable.wellFormed.size_le
  have hpush : (Edit.push tiny).perform brimful
      = (.error (.outOfRange .listLength 65536 65535), brimful) := by
    have h := ((Edit.push tiny).allOrNothing hfull).tooLong _ _ (.push [bulky] tiny)
    rw [← hpushed]
    exact h (Nat.lt_of_lt_of_eq (by decide) hpushed.symm)
  obtain ⟨index, limit, hremove⟩ :=
    ((Edit.remove 1).allOrNothing hfull).misplaced (Nat.lt_irrefl 1)
  have hrun : brimful.run [.push tiny, .remove 1] = brimful := by
    rw [run, List.foldl_cons, hpush, List.foldl_cons, hremove, List.foldl_nil]
  rw [hrun] at hbounded hnext ⊢
  refine ⟨hbounded, hpush, ?_, ?_⟩
  · exact (hnext (.replace 0 tiny)).done _ _ (.replace [] [] bulky tiny) (by decide)
  · exact (hnext (.remove 0)).done _ _ (.remove [] [] bulky) (by decide)

end AccessList

end SecurityDescriptor
