/-
**Where a text stops being a run of entries.**

Every text begins with a longest run of entries, which may be empty.  What follows it is nothing, or it
does not begin with an entry: it does not open one, it opens one that is never closed, or what it
encloses is empty or opens another one.  A text of the first sort is cut into its entries.  A text of
the second sort is refused for what follows the run, at the byte where this begins; that is the width
of the run, whatever characters the entries are made of.

Main definitions:

* `AccessList.IsRun` — a text is a run of entries with the given texts;
* `AccessList.Misshapen` — what is wrong with a text that does not begin with an entry;
* `AccessList.Breaks` — **the fault of a text and the position that it is reported at**.

Main results:

* `AccessList.cutFrom_run` — the reader goes on behind a run of entries, as far on as the run is wide;
* `AccessList.exists_run_append` — every text is a run of entries and a text that does not begin with
  one;
* `AccessList.Misshapen.isPrefix_run` — no run of entries at the beginning of the text is longer;
* `AccessList.splitEntries_exact` — **runs of entries are cut exactly, and all other texts are refused
  where the longest run ends**.
-/

import SecurityDescriptor.Proofs.AccessList.Scanning

set_option relaxedAutoImplicit false
set_option autoImplicit false

namespace SecurityDescriptor

namespace AccessList

/-- **A text is a run of entries** with the given texts. -/
structure IsRun (text : List Char) (tokens : List (List Char)) : Prop where
  text_eq : text = tokens.flatMap enclose
  isToken : ∀ token ∈ tokens, IsToken token

/-- **What is wrong with a text that does not begin with an entry.** -/
inductive Misshapen : List Char → ListFault → Prop
  | notOpened {c : Char} {rest : List Char} (h : c ≠ '(') : Misshapen (c :: rest) .entryNotOpened
  | notClosed {inner : List Char} (h : ')' ∉ inner) : Misshapen ('(' :: inner) .entryNotClosed
  | emptyOrNested {token : List Char} (rest : List Char) (hclose : ')' ∉ token)
      (hbad : token = [] ∨ '(' ∈ token) :
      Misshapen ('(' :: (token ++ ')' :: rest)) .entryEmptyOrNested

/-- **The fault of a text and the position that it is reported at**: there the longest run of entries
at the beginning of the text ends, and what follows does not begin with an entry. -/
structure Breaks (text : List Char) (fault : ListFault) (position : Nat) : Prop where
  cut : ∃ front tokens rest, Text.cut? position text = some (front, rest) ∧ IsRun front tokens ∧
    Misshapen rest fault
  longest : ∀ front tokens, IsRun front tokens → front <+: text → Text.width front ≤ position

/-! ### Cutting on -/

variable {entries : List (List Char)} {position : Nat}

/-- **The reader goes on behind a run of entries**, at a position that is as far on as the run is
wide. -/
theorem cutFrom_run {front : List Char} {tokens : List (List Char)} (h : IsRun front tokens)
    (rest : List Char) :
    cutFrom entries position (front ++ rest)
      = cutFrom (tokens.reverse ++ entries) (position + Text.width front) rest := by
  obtain ⟨rfl, htokens⟩ := h
  induction tokens generalizing entries position with
  | nil => rfl
  | cons token tokens ih =>
      have htoken := htokens token (List.mem_cons_self ..)
      have hrest := fun other hother => htokens other (List.mem_cons_of_mem token hother)
      have hwidth : Text.width (enclose token) = Text.width token + 2 := by
        have hopen : '('.utf8Size = 1 := rfl
        have hclose : ')'.utf8Size = 1 := rfl
        simp only [enclose, Text.width_cons, Text.width_append, Text.width_nil]
        omega
      have hfirst : (token :: tokens).flatMap enclose ++ rest
          = '(' :: (token ++ ')' :: (tokens.flatMap enclose ++ rest)) := by
        simp [enclose]
      rw [hfirst, cutFrom_enclose htoken, ih hrest, List.flatMap_cons, Text.width_append, hwidth,
        List.reverse_cons, List.append_assoc, List.singleton_append, Nat.add_assoc]

/-- A text that does not begin with an entry is refused at once. -/
theorem Misshapen.cutFrom_eq {text : List Char} {fault : ListFault} (h : Misshapen text fault) :
    cutFrom entries position text = .error (.list fault position) := by
  cases h with
  | notOpened hc => exact cutFrom_of_ne hc _
  | notClosed hclose => exact cutFrom_open hclose
  | emptyOrNested rest hclose hbad => exact cutFrom_bad hclose hbad rest

/-! ### The longest run -/

/-- A text begins with an entry, or something is wrong with it. -/
theorem exists_entry_or_misshapen {text : List Char} (hne : text ≠ []) :
    (∃ token rest, IsToken token ∧ text = enclose token ++ rest) ∨ ∃ fault, Misshapen text fault := by
  obtain ⟨c, inner, rfl⟩ := List.exists_cons_of_ne_nil hne
  by_cases hc : c = '('
  · subst hc
    by_cases hclose : ')' ∈ inner
    · obtain ⟨token, rest, rfl, htoken⟩ := Text.exists_split_of_mem hclose
      by_cases hbad : token = [] ∨ '(' ∈ token
      · exact .inr ⟨_, .emptyOrNested rest htoken hbad⟩
      · obtain ⟨hnonempty, hnested⟩ := not_or.mp hbad
        refine .inl ⟨token, rest, ⟨hnonempty, hnested, htoken⟩, ?_⟩
        simp [enclose]
    · exact .inr ⟨_, .notClosed hclose⟩
  · exact .inr ⟨_, .notOpened hc⟩

/-- **Every text is a run of entries and a text that does not begin with one.** -/
theorem exists_run_append (text : List Char) :
    ∃ front tokens rest, IsRun front tokens ∧ text = front ++ rest ∧
      (rest = [] ∨ ∃ fault, Misshapen rest fault) := by
  -- Each entry shortens the text, so the induction is on its length.
  induction hn : text.length using Nat.strongRecOn generalizing text with
  | ind n ih =>
      have hstop : IsRun [] [] := ⟨rfl, fun _ h => (List.not_mem_nil h).elim⟩
      by_cases hne : text = []
      · exact ⟨[], [], text, hstop, rfl, .inl hne⟩
      · rcases exists_entry_or_misshapen hne with ⟨token, rest, htoken, rfl⟩ | hfault
        · have hshort : rest.length < n := by
            rw [← hn, List.length_append, enclose, List.length_cons]
            omega
          obtain ⟨front, tokens, last, ⟨rfl, htokens⟩, rfl, hlast⟩ := ih _ hshort rest rfl
          refine ⟨_, token :: tokens, last, ⟨rfl, ?_⟩, ?_, hlast⟩
          · intro other hother
            rcases List.mem_cons.mp hother with rfl | hother
            · exact htoken
            · exact htokens other hother
          · rw [List.flatMap_cons, List.append_assoc]
        · exact ⟨[], [], text, hstop, rfl, .inr hfault⟩

/-- The first entry of a text is known. -/
theorem enclose_append_inj {token other rest others : List Char} (h : ')' ∉ token) (h' : ')' ∉ other)
    (heq : enclose token ++ rest = enclose other ++ others) : token = other ∧ rest = others := by
  simp only [enclose, List.cons_append, List.append_assoc, List.nil_append, List.cons.injEq,
    true_and] at heq
  have hsame : token = other := by
    rw [← Text.takeWhile_append h rest, heq, Text.takeWhile_append h']
  subst hsame
  exact ⟨rfl, (List.cons.inj (List.append_cancel_left heq)).2⟩

/-- A text with which something is wrong does not begin with an entry. -/
theorem Misshapen.not_entry {text : List Char} {fault : ListFault} (h : Misshapen text fault)
    {token : List Char} (htoken : IsToken token) (rest : List Char) :
    text ≠ enclose token ++ rest := by
  intro heq
  obtain ⟨hne, hnested, hclose⟩ := htoken
  cases h with
  | notOpened hc => exact hc (List.cons.inj heq).1
  | notClosed hopen =>
      rw [enclose, List.cons_append] at heq
      refine hopen ?_
      rw [(List.cons.inj heq).2]
      simp
  | @emptyOrNested inside behind hinside hbad =>
      have hfirst : enclose inside ++ behind = enclose token ++ rest := by
        rw [← heq]
        simp [enclose]
      obtain ⟨rfl, -⟩ := enclose_append_inj hinside hclose hfirst
      rcases hbad with hnil | hmem
      · exact hne hnil
      · exact hnested hmem

/-- **No run of entries at the beginning of a text reaches further** than one behind which something
is wrong. -/
theorem Misshapen.isPrefix_run {rest : List Char} {fault : ListFault} (h : Misshapen rest fault)
    {front other : List Char} {tokens others : List (List Char)} (hfront : IsRun front tokens)
    (hother : IsRun other others) (hbegins : other <+: front ++ rest) : other <+: front := by
  obtain ⟨rfl, htokens⟩ := hfront
  obtain ⟨rfl, hothers⟩ := hother
  obtain ⟨more, hmore⟩ := hbegins
  induction others generalizing tokens with
  | nil => exact List.nil_prefix
  | cons token others ih =>
      have htoken := hothers token (List.mem_cons_self ..)
      rw [List.flatMap_cons, List.append_assoc] at hmore
      cases tokens with
      | nil => exact (h.not_entry htoken _ hmore.symm).elim
      | cons first tokens =>
          have hfirst := htokens first (List.mem_cons_self ..)
          rw [List.flatMap_cons, List.append_assoc] at hmore
          obtain ⟨rfl, hbehind⟩ := enclose_append_inj htoken.2.2 hfirst.2.2 hmore
          rw [List.flatMap_cons, List.flatMap_cons, List.prefix_append_right_inj]
          exact ih (fun a ha => htokens a (List.mem_cons_of_mem _ ha))
            (fun a ha => hothers a (List.mem_cons_of_mem _ ha)) hbehind

/-! ### Cutting a whole text -/

theorem isRun_iff_splitEntries {text : List Char} {tokens : List (List Char)} :
    IsRun text tokens ↔ splitEntries text = .ok tokens := by
  rw [splitEntries_eq_ok_iff]
  constructor
  · rintro ⟨htext, htokens⟩
    exact ⟨htext, htokens⟩
  · rintro ⟨htext, htokens⟩
    exact ⟨htext, htokens⟩

/-- A text is a run of entries in one way. -/
theorem IsRun.unique {text : List Char} {tokens others : List (List Char)} (h : IsRun text tokens)
    (h' : IsRun text others) : tokens = others := by
  rw [isRun_iff_splitEntries] at h h'
  exact Except.ok.inj (h.symm.trans h')

/-- Behind a run of entries a text is refused where the run ends. -/
theorem splitEntries_append {front rest : List Char} {tokens : List (List Char)} {fault : ListFault}
    (hfront : IsRun front tokens) (hrest : Misshapen rest fault) :
    splitEntries (front ++ rest) = .error (.list fault (Text.width front)) := by
  have hcut : splitEntries (front ++ rest)
      = cutFrom (tokens.reverse ++ []) (0 + Text.width front) rest := cutFrom_run hfront rest
  rw [hcut, hrest.cutFrom_eq, Nat.zero_add]

/-- The longest run of entries ends where something is wrong. -/
theorem breaks_append {front rest : List Char} {tokens : List (List Char)} {fault : ListFault}
    (hfront : IsRun front tokens) (hrest : Misshapen rest fault) :
    Breaks (front ++ rest) fault (Text.width front) := by
  refine ⟨⟨front, tokens, rest, Text.cut?_append front rest, hfront, hrest⟩, ?_⟩
  intro other others hother hbegins
  obtain ⟨more, rfl⟩ := hrest.isPrefix_run hfront hother hbegins
  rw [Text.width_append]
  exact Nat.le_add_right ..

/-- **A text is refused for its fault and where the fault is.** -/
theorem splitEntries_eq_error_iff {text : List Char} {e : Error} :
    splitEntries text = .error e ↔ ∃ fault position, e = .list fault position ∧
      Breaks text fault position := by
  constructor
  · intro h
    obtain ⟨front, tokens, rest, hfront, rfl, rfl | ⟨fault, hrest⟩⟩ := exists_run_append text
    · rw [List.append_nil, isRun_iff_splitEntries.mp hfront] at h
      cases h
    · rw [splitEntries_append hfront hrest] at h
      cases h
      exact ⟨fault, _, rfl, breaks_append hfront hrest⟩
  · rintro ⟨fault, position, rfl, ⟨front, tokens, rest, hcut, hfront, hrest⟩, -⟩
    obtain ⟨rfl, rfl⟩ := Text.cut?_eq_some_iff.mp hcut
    exact splitEntries_append hfront hrest

/-- **Runs of entries are cut exactly, and all other texts are refused where the longest run of
entries ends.**  The loop that cuts entries off a text by position comes to the same. -/
theorem splitEntries_exact (text : List Char) :
    (∀ tokens, splitEntries text = .ok tokens ↔ IsRun text tokens)
      ∧ (∀ tokens others, IsRun text tokens → IsRun text others → tokens = others)
      ∧ ((∃ tokens, IsRun text tokens) ∨ ∃ fault position, Breaks text fault position)
      ∧ (∀ e, splitEntries text = .error e ↔ ∃ fault position, e = .list fault position
          ∧ e.kind = .malformedList ∧ Breaks text fault position)
      ∧ (Text.width text < Checked.sliceLimit →
          (scanEntries text).run = some (.ok (splitEntries text))) := by
  refine ⟨fun _ => isRun_iff_splitEntries.symm, fun _ _ => IsRun.unique, ?_, ?_, ?_⟩
  · obtain ⟨front, tokens, rest, hfront, rfl, rfl | ⟨fault, hrest⟩⟩ := exists_run_append text
    · rw [List.append_nil]
      exact .inl ⟨tokens, hfront⟩
    · exact .inr ⟨fault, _, breaks_append hfront hrest⟩
  · intro e
    rw [splitEntries_eq_error_iff]
    constructor
    · rintro ⟨fault, position, rfl, hbreaks⟩
      exact ⟨fault, position, rfl, rfl, hbreaks⟩
    · rintro ⟨fault, position, rfl, -, hbreaks⟩
      exact ⟨fault, position, rfl, hbreaks⟩
  · intro hwidth
    rw [scanEntries_eq hwidth, Looping.run_settled]

/-- An entry of one character in two bytes moves what follows it by four bytes. -/
theorem splitEntries_exact_accented :
    splitEntries "(A)(é)".toList = .ok [['A'], ['é']]
      ∧ Breaks "(A)(é)((B))".toList .entryEmptyOrNested 7
      ∧ (scanEntries "(A)(é)((B))".toList).run
          = some (.ok (.error (.list .entryEmptyOrNested 7))) := by
  obtain ⟨-, -, -, hrefused, hloop⟩ := splitEntries_exact "(A)(é)((B))".toList
  have herror : splitEntries "(A)(é)((B))".toList = .error (.list .entryEmptyOrNested 7) := by
    decide +kernel
  refine ⟨?_, ?_, ?_⟩
  · exact ((splitEntries_exact "(A)(é)".toList).1 _).mpr ⟨by decide, by unfold IsToken; decide⟩
  · obtain ⟨fault, position, heq, -, hbreaks⟩ := (hrefused _).mp herror
    cases heq
    exact hbreaks
  · rw [hloop (by decide), herror]

end AccessList

end SecurityDescriptor
