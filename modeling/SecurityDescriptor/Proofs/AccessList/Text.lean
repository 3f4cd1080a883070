/-
**A text is cut into entries in one way.**

The text of a list is a run of entries in parentheses.  The reader goes through it character by
character; what it has read at any point is the entries that are complete and the beginning of one
more, and reading on keeps this so.  At the end nothing may have been begun.  So the reader accepts
exactly the runs of texts that are not empty and have no parentheses, each in parentheses, and
returns these texts.

Main definitions:

* `AccessList.enclose`, `AccessList.IsToken` — a text in parentheses, and the texts that may stand
  there;
* `AccessList.Cutting.Reads` — what was read so far;
* `AccessList.textual` — what is left of a list in its text.

Main results:

* `AccessList.Cutting.step_eq_ok_iff`, `AccessList.Cutting.Reads.step` — what a step can do, and
  what it keeps;
* `AccessList.splitEntries_eq_ok_iff` — **the reader cuts exactly the runs of entries**;
* `AccessList.renderEntries_eq_ok_iff` — what is written for a run of entries;
* `AccessList.parse_render` — **the text of a list is read as the textual form of the list**.
-/

import SecurityDescriptor.Proofs.AccessList.Reachable

set_option relaxedAutoImplicit false
set_option autoImplicit false

namespace SecurityDescriptor

namespace AccessList

/-- A text in parentheses. -/
def enclose (token : List Char) : List Char := '(' :: (token ++ [')'])

/-- A text that may stand between the parentheses of an entry. -/
def IsToken (token : List Char) : Prop := token ≠ [] ∧ '(' ∉ token ∧ ')' ∉ token

/-! ### Cutting -/

namespace Cutting

/-- **What was read so far**: complete entries, and perhaps the beginning of one more. -/
structure Reads (cutting : Cutting) (text : List Char) : Prop where
  text_eq : text = cutting.entries.reverse.flatMap enclose
    ++ (cutting.inside.elim [] fun inside => '(' :: inside.reverse)
  isToken : ∀ token ∈ cutting.entries, IsToken token
  inside_open : ∀ inside ∈ cutting.inside, ')' ∉ inside

theorem reads_initial : initial.Reads [] :=
  ⟨rfl, fun _ h => (List.not_mem_nil h).elim, fun _ h => by cases h⟩

/-- The three things that a step can do: begin an entry, go on with one, or complete one. -/
theorem step_eq_ok_iff {cutting next : Cutting} {c : Char} :
    cutting.step c = .ok next ↔
      (cutting.inside = none ∧ c = '(' ∧ next = { cutting with inside := some [] }) ∨
      (∃ inside, cutting.inside = some inside ∧ c ≠ ')' ∧
        next = { cutting with inside := some (c :: inside) }) ∨
      (∃ inside, cutting.inside = some inside ∧ c = ')' ∧ ¬(inside = [] ∨ '(' ∈ inside) ∧
        next = ⟨inside.reverse :: cutting.entries,
          cutting.start + Text.width inside + 2, none⟩) := by
  obtain ⟨entries, start, inside⟩ := cutting
  unfold step
  cases inside with
  | none =>
      by_cases hopen : c = '('
      · simp [hopen, eq_comm]
      · simp [hopen]
  | some inside =>
      by_cases hclose : c = ')'
      · by_cases hbad : inside = [] ∨ '(' ∈ inside
        · rcases hbad with hnil | hnested
          · simp [hclose, hnil]
          · simp [hclose, hnested]
        · obtain ⟨hne, hnested⟩ := not_or.1 hbad
          simp [hclose, hne, hnested, eq_comm]
      · simp [hclose, eq_comm]

/-- **Reading one more character keeps what was read.** -/
theorem Reads.step {cutting next : Cutting} {text : List Char} {c : Char}
    (h : cutting.Reads text) (hstep : cutting.step c = .ok next) : next.Reads (text ++ [c]) := by
  obtain ⟨entries, start, inside⟩ := cutting
  obtain ⟨htext, htokens, hopen⟩ := h
  -- An opening parenthesis begins an entry and a closing one completes it, so what is inside stays
  -- free of closing ones; an opening one in it is found out when the entry is completed.
  rcases step_eq_ok_iff.1 hstep with ⟨hnone, rfl, rfl⟩ | ⟨read, hread, hc, rfl⟩ |
    ⟨read, hread, rfl, hgood, rfl⟩
  · obtain rfl : inside = none := hnone
    refine ⟨?_, htokens, ?_⟩
    · rw [htext]
      simp
    · intro begun hbegun
      cases hbegun
      exact List.not_mem_nil
  · obtain rfl : inside = some read := hread
    refine ⟨?_, htokens, ?_⟩
    · rw [htext]
      simp
    · intro longer hlonger
      cases hlonger
      intro hmem
      rcases List.mem_cons.1 hmem with heq | hmem
      · exact hc heq.symm
      · exact hopen read rfl hmem
  · obtain rfl : inside = some read := hread
    obtain ⟨hne, hnested⟩ := not_or.1 hgood
    refine ⟨?_, ?_, ?_⟩
    · rw [htext]
      simp [enclose]
    · intro token htoken
      rcases List.mem_cons.1 htoken with rfl | htoken
      · refine ⟨?_, ?_, ?_⟩
        · exact fun hnil => hne (List.reverse_eq_nil_iff.1 hnil)
        · exact fun hmem => hnested (List.mem_reverse.1 hmem)
        · exact fun hmem => hopen read rfl (List.mem_reverse.1 hmem)
      · exact htokens token htoken
    · intro begun hnone
      cases hnone

/-- Characters within an entry are kept. -/
theorem foldlM_step_inside {token : List Char} (h : ')' ∉ token) (entries : List (List Char))
    (start : Nat) (inside : List Char) :
    token.foldlM step ⟨entries, start, some inside⟩
      = .ok ⟨entries, start, some (token.reverse ++ inside)⟩ := by
  induction token generalizing inside with
  | nil => rfl
  | cons c token ih =>
      have hc : c ≠ ')' := by
        rintro rfl
        exact h (List.mem_cons_self ..)
      have hstep : step ⟨entries, start, some inside⟩ c
          = .ok ⟨entries, start, some (c :: inside)⟩ :=
        step_eq_ok_iff.2 (.inr (.inl ⟨inside, rfl, hc, rfl⟩))
      rw [List.foldlM_cons, hstep, Outcome.ok_bind, ih fun hmem => h (List.mem_cons_of_mem c hmem),
        List.reverse_cons, List.append_assoc, List.singleton_append]

/-- An entry in parentheses is cut off as a whole. -/
theorem foldlM_step_enclose {token : List Char} (h : IsToken token) (entries : List (List Char))
    (start : Nat) :
    (enclose token).foldlM step ⟨entries, start, none⟩
      = .ok ⟨token :: entries, start + Text.width token.reverse + 2, none⟩ := by
  obtain ⟨hne, hnested, hopen⟩ := h
  have hfirst : step ⟨entries, start, none⟩ '(' = .ok ⟨entries, start, some []⟩ := rfl
  have hgood : ¬(token.reverse = [] ∨ '(' ∈ token.reverse) := by
    rw [not_or, List.reverse_eq_nil_iff, List.mem_reverse]
    exact ⟨hne, hnested⟩
  have hlast : step ⟨entries, start, some (token.reverse ++ [])⟩ ')'
      = .ok ⟨token :: entries, start + Text.width token.reverse + 2, none⟩ := by
    rw [List.append_nil]
    refine step_eq_ok_iff.2 (.inr (.inr ⟨token.reverse, rfl, rfl, hgood, ?_⟩))
    rw [List.reverse_reverse]
  rw [enclose, List.foldlM_cons, hfirst, Outcome.ok_bind, List.foldlM_append,
    foldlM_step_inside hopen, Outcome.ok_bind, List.foldlM_cons, hlast]
  rfl

/-- A run of entries is cut into its entries. -/
theorem foldlM_step_flatMap {tokens : List (List Char)} (h : ∀ token ∈ tokens, IsToken token)
    (entries : List (List Char)) (start : Nat) :
    ∃ last, (tokens.flatMap enclose).foldlM step ⟨entries, start, none⟩
      = .ok ⟨tokens.reverse ++ entries, last, none⟩ := by
  induction tokens generalizing entries start with
  | nil => exact ⟨start, rfl⟩
  | cons token tokens ih =>
      obtain ⟨last, hlast⟩ := ih (fun other hother => h other (List.mem_cons_of_mem _ hother))
        (token :: entries) (start + Text.width token.reverse + 2)
      refine ⟨last, ?_⟩
      have hfirst := foldlM_step_enclose (h token (List.mem_cons_self ..)) entries start
      rw [List.flatMap_cons, List.foldlM_append, hfirst, Outcome.ok_bind, hlast,
        List.reverse_cons, List.append_assoc, List.singleton_append]

end Cutting

/-- **The reader cuts exactly the runs of entries.** -/
theorem splitEntries_eq_ok_iff {text : List Char} {tokens : List (List Char)} :
    splitEntries text = .ok tokens
      ↔ text = tokens.flatMap enclose ∧ ∀ token ∈ tokens, IsToken token := by
  constructor
  · intro h
    obtain ⟨cutting, hrun, hfinish⟩ := Outcome.bind_eq_ok_iff.1 h
    -- What a step keeps holds at the end of the text, where no entry may be open.
    have hreads := Outcome.foldlM_invariant Cutting.Reads Cutting.reads_initial
      (fun _ _ _ _ hreads hstep => hreads.step hstep) hrun
    obtain ⟨entries, start, inside⟩ := cutting
    cases inside with
    | none =>
        cases hfinish
        refine ⟨?_, fun token htoken => hreads.isToken token (List.mem_reverse.1 htoken)⟩
        rw [hreads.text_eq]
        exact List.append_nil _
    | some inside => cases hfinish
  · rintro ⟨rfl, htokens⟩
    obtain ⟨last, hrun⟩ := Cutting.foldlM_step_flatMap htokens [] 0
    refine Outcome.bind_eq_ok_iff.2 ⟨_, hrun, ?_⟩
    rw [Cutting.finish, List.append_nil, List.reverse_reverse]

/-! ### Writing -/

/-- What is written for entries is a run of their texts. -/
theorem renderEntries_eq_ok_iff {entries : List Entry} {text : List Char} :
    renderEntries entries = .ok text ↔ ∃ tokens,
      List.Forall₂ (fun entry token => entry.render = .ok token) entries tokens ∧
      text = tokens.flatMap enclose := by
  induction entries generalizing text with
  | nil => simp [renderEntries, eq_comm]
  | cons entry entries ih =>
      constructor
      · intro h
        obtain ⟨token, htoken, h₁⟩ := Outcome.bind_eq_ok_iff.1 h
        obtain ⟨rest, hrest, h₂⟩ := Outcome.bind_eq_ok_iff.1 h₁
        obtain ⟨tokens, htokens, rfl⟩ := ih.1 hrest
        cases h₂
        refine ⟨token :: tokens, .cons htoken htokens, ?_⟩
        rw [List.flatMap_cons, enclose, List.cons_append, List.append_assoc, List.singleton_append]
      · rintro ⟨tokens, hread, rfl⟩
        obtain ⟨token, others, htoken, hothers, rfl⟩ := List.forall₂_cons_left_iff.1 hread
        rw [renderEntries, htoken, Outcome.ok_bind, ih.2 ⟨others, hothers, rfl⟩, Outcome.ok_bind,
          List.flatMap_cons, enclose, List.cons_append, List.append_assoc, List.singleton_append]
        rfl

/-! ### What is left of a list -/

/-- **What is left of a list in its text**: what is left of its entries, under the revision for
object entries if any of them is left. -/
def textual (list : AccessList) : AccessList :=
  let entries := list.entries.map Entry.textual
  ⟨if entries.any Entry.isObject then directoryRevision else plainRevision, entries⟩

theorem size_textual_le (list : AccessList) : list.textual.size ≤ list.size := by
  obtain ⟨revision, entries⟩ := list
  simp only [textual, size_mk]
  refine Nat.add_le_add_left ?_ headerSize
  induction entries with
  | nil => exact Nat.le_refl 0
  | cons entry entries ih =>
      have hentry := entry.size_textual_le
      rw [List.map_cons, entriesSize_cons, entriesSize_cons]
      omega

/-- **The text of a list is read as the textual form of the list**, if it has an entry. -/
theorem parse_render {list : AccessList} {text : List Char} (hne : list.entries ≠ [])
    (hsize : list.size ≤ maxSize) (h : list.render = .ok text) :
    parse text = .ok list.textual := by
  obtain ⟨tokens, hwritten, rfl⟩ := renderEntries_eq_ok_iff.1 h
  have htokens : ∀ token ∈ tokens, IsToken token := by
    intro token htoken
    obtain ⟨entry, -, hentry⟩ := Outcome.exists_mem_of_forall₂ hwritten htoken
    exact Entry.text_of_render hentry
  have hread : List.Forall₂ (fun token entry => Entry.parse token = .ok entry) tokens
      (list.entries.map Entry.textual) := by
    rw [List.forall₂_map_right_iff]
    exact hwritten.flip.imp fun _ _ hentry => Entry.parse_render hentry
  refine parse_eq_ok_iff.2
    ⟨tokens, splitEntries_eq_ok_iff.2 ⟨rfl, htokens⟩, ?_, hread, rfl, ?_⟩
  · rintro rfl
    exact hne (List.forall₂_nil_right_iff.1 hwritten)
  · exact Nat.le_trans list.size_textual_le hsize

/-- What was read has an entry and is its own textual form. -/
theorem textual_of_parse {text : List Char} {list : AccessList} (h : parse text = .ok list) :
    list.entries ≠ [] ∧ list.textual = list := by
  obtain ⟨tokens, -, hne, hread, hrevision, -⟩ := parse_eq_ok_iff.1 h
  have hentries : list.entries.map Entry.textual = list.entries := by
    have hfixed : ∀ entry ∈ list.entries, entry.textual = id entry := by
      intro entry hentry
      obtain ⟨token, -, htoken⟩ := Outcome.exists_mem_of_forall₂ hread hentry
      exact Entry.textual_of_parse htoken
    rw [List.map_congr_left hfixed, List.map_id]
  refine ⟨?_, ?_⟩
  · intro hnil
    rw [hnil] at hread
    exact hne (List.forall₂_nil_right_iff.1 hread)
  · rw [textual, hentries]
    obtain ⟨revision, entries⟩ := list
    exact congrArg (AccessList.mk · entries) hrevision.symm

end AccessList

end SecurityDescriptor
