/-
**What is accepted as a list section.**

A list section is a run of marks and then either nothing or entries in parentheses.  No mark has a
parenthesis in it, so the marks reach up to the first parenthesis, and a section can be taken apart
in one way.  It is accepted exactly if the words for a null list stand among the marks where there
are no entries, and do not stand there where there are some.  A colon can occur only within the
parentheses of an entry, so every accepted section is closed.

Main definitions:

* `ListMark.word` — the word of a mark;
* `ListText`, `ListText.text`, `ListText.IsGrammatical` — a list section taken apart, its text, and
  what it takes to be accepted;
* `ListText.list?` — the list of a section.

Main results:

* `ListMark.run_iff` — a run of marks is the words of the marks;
* `Descriptor.parseListSection_eq_ok_iff` — **what is accepted as a list section**;
* `ListText.unique` — a text is a list section in one way;
* `ListText.IsGrammatical.enclosed` — an accepted section is closed.
-/

import SecurityDescriptor.Descriptor.Text
import SecurityDescriptor.Proofs.AccessList.Text
import SecurityDescriptor.Proofs.Descriptor.Section

set_option relaxedAutoImplicit false
set_option autoImplicit false

namespace SecurityDescriptor

/-! ### Marks -/

namespace ListMark

/-- The word of a mark. -/
def word : ListMark → List Char
  | shielded => ['P']
  | autoInheritRequired => ['A', 'R']
  | autoInherited => ['A', 'I']
  | noAccessControl => noAccessControlToken.toList

theorem separable_tokens : Token.Separable tokens := by decide

theorem word_of_mem_tokens {row : String × ListMark} (h : row ∈ tokens) :
    row.1.toList = word row.2 := by
  have hall : ∀ row ∈ tokens, row.1.toList = word row.2 := by decide
  exact hall row h

theorem exists_mem_tokens (mark : ListMark) : ∃ row ∈ tokens, row.2 = mark := by
  cases mark <;> decide

/-- **A run of marks is the words of the marks**, one after another. -/
theorem run_iff {text : List Char} {marks : List ListMark} :
    Token.Run tokens text marks ↔ text = marks.flatMap word := by
  constructor
  · intro h
    induction h with
    | nil => rfl
    | cons hrow _ ih => rw [ih, word_of_mem_tokens hrow, List.flatMap_cons]
  · rintro rfl
    induction marks with
    | nil => exact .nil
    | cons mark marks ih =>
        obtain ⟨row, hrow, rfl⟩ := exists_mem_tokens mark
        rw [List.flatMap_cons, ← word_of_mem_tokens hrow]
        exact .cons hrow ih

/-- Marks have neither parentheses nor colons. -/
theorem ne_of_mem_words {marks : List ListMark} {c : Char} (h : c ∈ marks.flatMap word) :
    c ≠ '(' ∧ c ≠ ')' ∧ c ≠ ':' := by
  have hall : ∀ row ∈ tokens, '(' ∉ row.1.toList ∧ ')' ∉ row.1.toList ∧ ':' ∉ row.1.toList := by
    decide
  have hchar : ∀ row ∈ tokens, ∀ c ∈ row.1.toList, c ≠ '(' ∧ c ≠ ')' ∧ c ≠ ':' := by
    intro row hrow c hc
    obtain ⟨hopen, hclose, hcolon⟩ := hall row hrow
    refine ⟨?_, ?_, ?_⟩
    · rintro rfl
      exact hopen hc
    · rintro rfl
      exact hclose hc
    · rintro rfl
      exact hcolon hc
  exact (run_iff.2 rfl).forall_char hchar c h

theorem run?_words (marks : List ListMark) :
    Token.run? tokens (marks.flatMap word) = some marks :=
  (Token.run?_eq_some_iff separable_tokens).2 (run_iff.2 rfl)

theorem words_inj {a b : List ListMark} (h : a.flatMap word = b.flatMap word) : a = b := by
  have ha := run?_words a
  rw [h, run?_words b] at ha
  exact (Option.some.inj ha).symm

end ListMark

/-! ### A list section taken apart -/

/-- **A list section taken apart**: its marks, the texts of its entries, and what these are
read as. -/
structure ListText where
  marks : List ListMark
  tokens : List (List Char)
  entries : List Entry

namespace ListText

/-- The entries of a section, in parentheses. -/
def body (l : ListText) : List Char := l.tokens.flatMap AccessList.enclose

/-- The content of a section. -/
def text (l : ListText) : List Char := l.marks.flatMap ListMark.word ++ l.body

/-- **What it takes to be accepted.** -/
structure IsGrammatical (l : ListText) : Prop where
  /-- Each text in parentheses is that of an entry. -/
  read : List.Forall₂ (fun token entry => AccessList.IsToken token ∧ Entry.parse token = .ok entry)
    l.tokens l.entries
  /-- The words for a null list stand in place of entries. -/
  null_iff : .noAccessControl ∈ l.marks ↔ l.tokens = []
  /-- The list fits in its size field. -/
  size_le : AccessList.headerSize + AccessList.entriesSize l.entries ≤ AccessList.maxSize

/-- The list of a section; a null list is none. -/
def list? (l : ListText) : Option AccessList :=
  if l.tokens = [] then none else some ⟨AccessList.revisionFor l.entries, l.entries⟩

/-- What is behind the marks is nothing, or it begins with a parenthesis. -/
theorem body_cases (l : ListText) : l.body = [] ∨ ∃ rest, l.body = '(' :: rest := by
  obtain ⟨marks, tokens, entries⟩ := l
  cases tokens with
  | nil => exact .inl rfl
  | cons token tokens =>
      refine .inr ⟨token ++ [')'] ++ tokens.flatMap AccessList.enclose, ?_⟩
      rw [body, List.flatMap_cons, AccessList.enclose, List.cons_append]

theorem body_eq_nil_iff (l : ListText) : l.body = [] ↔ l.tokens = [] := by
  obtain ⟨marks, tokens, entries⟩ := l
  cases tokens with
  | nil => simp [body]
  | cons token tokens => simp [body, AccessList.enclose]

theorem IsGrammatical.isToken {l : ListText} (h : l.IsGrammatical) :
    ∀ token ∈ l.tokens, AccessList.IsToken token := by
  intro token htoken
  obtain ⟨entry, -, hread⟩ := Outcome.exists_mem_of_forall₂ h.read.flip htoken
  exact hread.1

/-- Texts in parentheses are closed. -/
theorem enclosed_flatMap_enclose {tokens : List (List Char)}
    (h : ∀ token ∈ tokens, AccessList.IsToken token) :
    Text.Enclosed (tokens.flatMap AccessList.enclose) := by
  induction tokens with
  | nil => exact Text.enclosed_nil
  | cons token tokens ih =>
      obtain ⟨-, hopen, hclose⟩ := h token (List.mem_cons_self ..)
      have hinside : (token ++ [')']).foldlM Text.nest 1 = some 0 := by
        rw [List.foldlM_append, Text.foldlM_nest_inside hopen hclose 0]
        rfl
      have hfirst : Text.Enclosed (AccessList.enclose token) := hinside
      rw [List.flatMap_cons]
      exact hfirst.append (ih fun other hother => h other (List.mem_cons_of_mem _ hother))

/-- An accepted section is closed. -/
theorem IsGrammatical.enclosed {l : ListText} (h : l.IsGrammatical) : Text.Enclosed l.text := by
  have hmarks : Text.Enclosed (l.marks.flatMap ListMark.word) :=
    Text.foldlM_nest_of_ne (fun _ hc => ListMark.ne_of_mem_words hc) 0
  exact hmarks.append (enclosed_flatMap_enclose h.isToken)

/-- Marks end at the first parenthesis. -/
theorem split_words (marks : List ListMark) {body : List Char}
    (h : body = [] ∨ ∃ rest, body = '(' :: rest) :
    (marks.flatMap ListMark.word ++ body).takeWhile (· != '(') = marks.flatMap ListMark.word ∧
      (marks.flatMap ListMark.word ++ body).dropWhile (· != '(') = body := by
  have hmarks : ∀ c ∈ marks.flatMap ListMark.word, (c != '(') = true :=
    fun c hc => bne_iff_ne.2 (ListMark.ne_of_mem_words hc).1
  rw [List.takeWhile_append_of_pos hmarks, List.dropWhile_append_of_pos hmarks]
  rcases h with rfl | ⟨rest, rfl⟩
  · exact ⟨List.append_nil _, rfl⟩
  · exact ⟨List.append_nil _, rfl⟩

/-- **A text is a list section in one way.** -/
theorem unique {a b : ListText} (ha : a.IsGrammatical) (hb : b.IsGrammatical)
    (h : a.text = b.text) : a = b := by
  -- The first parenthesis tells marks and entries apart; marks are cut in one way, entries as well,
  -- and the entries are what the texts in parentheses are read as.
  obtain ⟨hamarks, habody⟩ := split_words a.marks a.body_cases
  obtain ⟨hbmarks, hbbody⟩ := split_words b.marks b.body_cases
  have hmarks : a.marks = b.marks := by
    refine ListMark.words_inj ?_
    rw [← hamarks, ← hbmarks]
    exact congrArg _ h
  have hbody : a.body = b.body := by
    rw [← habody, ← hbbody]
    exact congrArg _ h
  have htokens : a.tokens = b.tokens := by
    have hcuta := AccessList.splitEntries_eq_ok_iff.2 ⟨rfl, ha.isToken⟩
    have hcutb := AccessList.splitEntries_eq_ok_iff.2 ⟨rfl, hb.isToken⟩
    change AccessList.splitEntries a.body = .ok a.tokens at hcuta
    rw [hbody] at hcuta
    exact Except.ok.inj (hcuta.symm.trans hcutb)
  have hentries : a.entries = b.entries := by
    have hreada := Outcome.mapM_eq_ok_iff.2 (ha.read.imp fun _ _ hread => hread.2)
    have hreadb := Outcome.mapM_eq_ok_iff.2 (hb.read.imp fun _ _ hread => hread.2)
    rw [htokens] at hreada
    exact Except.ok.inj (hreada.symm.trans hreadb)
  obtain ⟨marks, tokens, entries⟩ := a
  obtain ⟨marks', tokens', entries'⟩ := b
  change marks = marks' at hmarks
  change tokens = tokens' at htokens
  change entries = entries' at hentries
  rw [hmarks, htokens, hentries]

end ListText

/-! ### Reading a list section -/

namespace Descriptor

/-- The control flags that a list section stands for. -/
def listControl (side : ListSide) (marks : List ListMark) : Control :=
  (ListMark.control side marks).put side.presence true

/-- Any content of a list section that is accepted begins with marks. -/
theorem exists_words_of_parseListSection {side : ListSide} {content : List Char}
    {parsed : ListSection} (h : parseListSection side content = .ok parsed) :
    ∃ (marks : List ListMark) (body : List Char),
      content = marks.flatMap ListMark.word ++ body ∧ (body = [] ∨ ∃ rest, body = '(' :: rest) := by
  unfold parseListSection at h
  dsimp only at h
  split at h
  · cases h
  · rename_i marks hmarks
    have hrun := (Token.run?_eq_some_iff ListMark.separable_tokens).1 hmarks
    refine ⟨marks, content.dropWhile (· != '('), ?_, ?_⟩
    · rw [← ListMark.run_iff.1 hrun, List.takeWhile_append_dropWhile]
    · have hhead := List.head?_dropWhile_not (· != '(') content
      cases hbody : content.dropWhile (· != '(') with
      | nil => exact .inl rfl
      | cons c rest =>
          rw [hbody] at hhead
          simp only [List.head?_cons, bne_eq_false_iff_eq] at hhead
          rw [hhead]
          exact .inr ⟨rest, rfl⟩

/-- What is read behind given marks. -/
theorem parseListSection_words (side : ListSide) (marks : List ListMark) {body : List Char}
    (h : body = [] ∨ ∃ rest, body = '(' :: rest) :
    parseListSection side (marks.flatMap ListMark.word ++ body)
      = if .noAccessControl ∈ marks then
          if body = [] then .ok ⟨listControl side marks, none⟩
          else .error (.descriptor .nullListWithEntries
            (Text.width (marks.flatMap ListMark.word)))
        else if body = [] then
          .error (.descriptor .listMissing (Text.width (marks.flatMap ListMark.word)))
        else (AccessList.parse body).map fun list => ⟨listControl side marks, some list⟩ := by
  obtain ⟨htake, hdrop⟩ := ListText.split_words marks h
  rw [parseListSection, htake, hdrop]
  dsimp only
  rw [ListMark.run?_words]
  simp only [List.contains_eq_mem, decide_eq_true_eq, listControl]
  cases AccessList.parse body <;> rfl

/-- **What is accepted as a list section.** -/
theorem parseListSection_eq_ok_iff {side : ListSide} {content : List Char}
    {parsed : ListSection} :
    parseListSection side content = .ok parsed ↔ ∃ l : ListText, l.IsGrammatical ∧
      content = l.text ∧ parsed = ⟨listControl side l.marks, l.list?⟩ := by
  constructor
  · intro h
    obtain ⟨marks, body, rfl, hbody⟩ := exists_words_of_parseListSection h
    rw [parseListSection_words side marks hbody] at h
    split at h
    · rename_i hnull
      split at h
      · rename_i hnil
        cases h
        subst hnil
        have hsize : AccessList.headerSize + AccessList.entriesSize [] ≤ AccessList.maxSize := by
          decide
        refine ⟨⟨marks, [], []⟩, ⟨.nil, ?_, hsize⟩, rfl, rfl⟩
        exact ⟨fun _ => rfl, fun _ => hnull⟩
      · cases h
    · rename_i hnull
      split at h
      · cases h
      · obtain ⟨list, hlist, rfl⟩ := Outcome.map_eq_ok_iff.1 h
        obtain ⟨tokens, hcut, hne, hread, hrevision, hsize⟩ := AccessList.parse_eq_ok_iff.1 hlist
        obtain ⟨rfl, htokens⟩ := AccessList.splitEntries_eq_ok_iff.1 hcut
        refine ⟨⟨marks, tokens, list.entries⟩, ⟨?_, ?_, hsize⟩, rfl, ?_⟩
        · exact (List.forall₂_and_left ..).2 ⟨htokens, hread⟩
        · exact ⟨fun hmem => absurd hmem hnull, fun hnil => absurd hnil hne⟩
        · rw [ListText.list?, if_neg hne, ← hrevision]
  · rintro ⟨l, hl, rfl, rfl⟩
    rw [ListText.text, parseListSection_words side l.marks l.body_cases]
    by_cases hnil : l.tokens = []
    · rw [if_pos (hl.null_iff.2 hnil), if_pos (l.body_eq_nil_iff.2 hnil), ListText.list?,
        if_pos hnil]
    · have hbody : ¬l.body = [] := fun h => hnil (l.body_eq_nil_iff.1 h)
      have hparse : AccessList.parse l.body
          = .ok ⟨AccessList.revisionFor l.entries, l.entries⟩ := by
        refine AccessList.parse_eq_ok_iff.2 ⟨l.tokens,
          AccessList.splitEntries_eq_ok_iff.2 ⟨rfl, hl.isToken⟩, hnil, ?_, rfl, hl.size_le⟩
        exact hl.read.imp fun _ _ hread => hread.2
      rw [if_neg (fun h => hnil (hl.null_iff.1 h)), if_neg hbody, hparse, ListText.list?,
        if_neg hnil]
      rfl

end Descriptor

end SecurityDescriptor
