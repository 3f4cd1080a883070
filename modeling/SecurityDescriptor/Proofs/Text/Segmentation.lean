/-
**Runs of tokens are read exactly, whichever table they are from.**

Four tables of tokens are in use: those of the flags of an entry, of rights, and of the marks of a
list section, where the marks of the two lists stand for different flags.  No token of a table begins
another one.  So a text that is put together from tokens is put together in one way, the loop that
reads it finds just these tokens and comes to an end, and it does so for two texts put together if it
does for each.  What is collected from the values in the end, flags or a mask, only depends on which
tokens occur, not on their order or on how often they do.

Main definitions:

* `Token.Segments` — the rows of a table whose tokens make up a text;
* `Token.ScansTo` — what the loop over a text comes to;
* `ListSide.tokens`, `ListSide.collect` — what the marks of a list stand for, and what is collected
  from them;
* `Token.ScansExactly` — what is said above, about one table.

Main results:

* `Token.Segments.unique` — **a text is put together in one way**;
* `Token.run?_append` — reading goes on behind a run;
* `Flags.ofList_congr`, `Mask.union_congr`, `Control.ofList_congr` — order and repetitions do not
  matter;
* `Token.scansExactly` — **in a separable table runs are read exactly**;
* `ListSide.run?_tokens`, `ListSide.collect_map_flag?` — what the marks that were read stand for;
* `Token.tables_scansExactly` — the same for each of the tables in use.
-/

import SecurityDescriptor.Proofs.Descriptor.Grammar
import SecurityDescriptor.Proofs.Entry.Scanning

set_option relaxedAutoImplicit false
set_option autoImplicit false

namespace SecurityDescriptor

/-! ### Texts put together from tokens -/

namespace Token

variable {α β : Type} {table : Table α}

/-- **The rows of a table whose tokens make up a text**, in order. -/
structure Segments (table rows : Table α) (text : List Char) : Prop where
  mem_table : ∀ row ∈ rows, row ∈ table
  text_eq : text = rows.flatMap fun row => row.1.toList

/-- A run is what some rows make up. -/
theorem run_iff_exists_segments {text : List Char} {values : List α} :
    Run table text values ↔ ∃ rows, Segments table rows text ∧ values = rows.map Prod.snd := by
  constructor
  · intro h
    induction h with
    | nil => exact ⟨[], ⟨fun _ hrow => (List.not_mem_nil hrow).elim, rfl⟩, rfl⟩
    | @cons row text values hrow _ ih =>
        obtain ⟨rows, ⟨hmem, rfl⟩, rfl⟩ := ih
        refine ⟨row :: rows, ⟨?_, rfl⟩, rfl⟩
        intro other hother
        rcases List.mem_cons.mp hother with rfl | hother
        · exact hrow
        · exact hmem other hother
  · rintro ⟨rows, ⟨hmem, rfl⟩, rfl⟩
    induction rows with
    | nil => exact .nil
    | cons row rows ih =>
        have hrest := ih fun other hother => hmem other (List.mem_cons_of_mem row hother)
        exact .cons (hmem row (List.mem_cons_self ..)) hrest

/-- **A text is put together in one way.** -/
theorem Segments.unique (hsep : Separable table) {rows others : Table α} {text : List Char}
    (h : Segments table rows text) (h' : Segments table others text) : rows = others := by
  obtain ⟨hmem, rfl⟩ := h
  obtain ⟨hmem', heq⟩ := h'
  induction rows generalizing others with
  | nil =>
      cases others with
      | nil => rfl
      | cons row others =>
          have hempty := (List.append_eq_nil_iff.mp heq.symm).1
          exact (hsep.1 row (hmem' row (List.mem_cons_self ..)) hempty).elim
  | cons row rows ih =>
      have hrow := hmem row (List.mem_cons_self ..)
      cases others with
      | nil => exact (hsep.1 row hrow (List.append_eq_nil_iff.mp heq).1).elim
      | cons other others =>
          have hother := hmem' other (List.mem_cons_self ..)
          rw [List.flatMap_cons, List.flatMap_cons] at heq
          -- Both tokens begin the text, so one begins the other, and the two rows are the same.
          have hsame : row = other := by
            have hfits : other.1.toList <+: row.1.toList ++ rows.flatMap fun row => row.1.toList :=
              heq ▸ List.prefix_append ..
            rcases List.prefix_or_prefix_of_prefix (List.prefix_append ..) hfits with hle | hle
            · exact hsep.2 row hrow other hother hle
            · exact (hsep.2 other hother row hrow hle).symm
          subst hsame
          have hrest := List.append_cancel_left heq
          rw [ih (fun a ha => hmem a (List.mem_cons_of_mem row ha))
            (fun a ha => hmem' a (List.mem_cons_of_mem row ha)) hrest]

/-! ### Reading on -/

/-- Behind a run the reader goes on with the rest of the text. -/
theorem runFrom?_of_run (hsep : Separable table) {front : List Char} {values : List α}
    (h : Run table front values) (read : List α) (back : List Char) :
    runFrom? table read 0 (front ++ back) = runFrom? table (values.reverse ++ read) 0 back := by
  induction h generalizing read with
  | nil => rfl
  | cons hrow _ ih =>
      rw [List.append_assoc, runFrom?_append hsep hrow, ih, List.reverse_cons, List.append_assoc,
        List.singleton_append]

/-- **Two texts are read one after the other**, if the first is a run. -/
theorem run?_append (hsep : Separable table) {front : List Char} {values : List α}
    (h : run? table front = some values) (back : List Char) :
    run? table (front ++ back) = (run? table back).map (values ++ ·) := by
  rw [run?_eq_some_iff hsep] at h
  apply Option.ext
  intro all
  rw [run?, runFrom?_of_run hsep h, List.append_nil, runFrom?_eq_some_iff hsep,
    List.reverse_reverse, Option.map_eq_some_iff]
  simp only [run?_eq_some_iff hsep, eq_comm]

/-- The loop over a text comes to a result, without a trap. -/
def ScansTo (table : Table α) (text : List Char) (result : Option (List α)) : Prop :=
  (scan table text).run = some (.ok (.ok result))

theorem scansTo_iff (hsep : Separable table) {text : List Char} {result : Option (List α)} :
    ScansTo table text result ↔ run? table text = result := by
  have hresult : (scan table text).run = some (.ok (.ok (run? table text))) := by
    rw [scan_eq hsep.1]
    rfl
  rw [ScansTo, hresult]
  simp

/-! ### One table -/

/-- **Runs of tokens of a table are read exactly.** -/
structure ScansExactly (table : Table α) (collect : List α → β) : Prop where
  /-- The loop comes to an end on every text. -/
  ends : ∀ text, ∃ result, ScansTo table text result
  /-- It accepts the texts that tokens make up, and returns the values of these tokens. -/
  accepts : ∀ text values, ScansTo table text (some values)
    ↔ ∃ rows, Segments table rows text ∧ values = rows.map Prod.snd
  /-- There is one way to put such a text together. -/
  unique : ∀ text rows others, Segments table rows text → Segments table others text →
    rows = others
  /-- Behind an accepted text reading goes on. -/
  append : ∀ front back values result, ScansTo table front (some values) →
    ScansTo table back result → ScansTo table (front ++ back) (result.map (values ++ ·))
  /-- Texts in which the same tokens occur are both accepted, and the same is collected. -/
  collects : ∀ text other rows others, Segments table rows text → Segments table others other →
    (∀ row, row ∈ rows ↔ row ∈ others) → ∃ values values', ScansTo table text (some values) ∧
      ScansTo table other (some values') ∧ collect values = collect values'

/-- **In a separable table runs are read exactly**, if what is collected only depends on the values
that occur. -/
theorem scansExactly (hsep : Separable table) {collect : List α → β}
    (hcollect : ∀ values values', (∀ value, value ∈ values ↔ value ∈ values') →
      collect values = collect values') : ScansExactly table collect := by
  have haccepts : ∀ text values, ScansTo table text (some values)
      ↔ ∃ rows, Segments table rows text ∧ values = rows.map Prod.snd := by
    intro text values
    rw [scansTo_iff hsep, run?_eq_some_iff hsep, run_iff_exists_segments]
  refine ⟨?_, haccepts, ?_, ?_, ?_⟩
  · intro text
    exact ⟨_, (scansTo_iff hsep).mpr rfl⟩
  · intro text rows others h h'
    exact h.unique hsep h'
  · intro front back values result hfront hback
    rw [scansTo_iff hsep] at hfront hback ⊢
    rw [run?_append hsep hfront, hback]
  · intro text other rows others h h' hsame
    refine ⟨_, _, (haccepts text _).mpr ⟨rows, h, rfl⟩, (haccepts other _).mpr ⟨others, h', rfl⟩, ?_⟩
    refine hcollect _ _ ?_
    intro value
    simp only [List.mem_map, hsame]

end Token

/-! ### What is collected -/

/-- Whether a value of some kind occurs only depends on the values that occur. -/
theorem any_congr_of_mem_iff {α : Type} {list others : List α} (h : ∀ a, a ∈ list ↔ a ∈ others)
    (p : α → Bool) : list.any p = others.any p := by
  rw [Bool.eq_iff_iff, List.any_eq_true, List.any_eq_true]
  simp only [h]

/-- Flags that occur are set, whatever their order and however often they occur. -/
theorem Flags.ofList_congr {list others : List Flag} (h : ∀ flag, flag ∈ list ↔ flag ∈ others) :
    ofList list = ofList others := by
  refine ext_has ?_ ?_
  · intro flag
    rw [has_ofList, has_ofList, any_congr_of_mem_iff h]
  · rw [getLsbD_ofList_unnamedBit, getLsbD_ofList_unnamedBit]

/-- The union of masks has the bits of those that occur. -/
theorem Mask.union_congr {masks others : List Mask} (h : ∀ mask, mask ∈ masks ↔ mask ∈ others) :
    union masks = union others := by
  refine isUnion_iff.mp ?_
  intro i
  rw [isUnion_iff.mpr rfl i, any_congr_of_mem_iff h]

theorem Control.ofList_congr {flags others : List ControlFlag}
    (h : ∀ flag, flag ∈ flags ↔ flag ∈ others) : ofList flags = ofList others := by
  apply ext_has
  intro flag
  rw [Descriptor.has_ofList, Descriptor.has_ofList, decide_eq_decide]
  exact h flag

/-! ### The marks of the two lists -/

namespace ListSide

/-- What the marks of a list stand for: a control flag, or nothing for the word that says that the
list is missing. -/
def tokens (side : ListSide) : Token.Table (Option ControlFlag) :=
  ListMark.tokens.map fun row => (row.1, row.2.flag? side)

/-- **What is collected from the marks of a list**: the control word, and whether the list is
missing. -/
def collect (values : List (Option ControlFlag)) : Control × Bool :=
  (Control.ofList (values.filterMap id), values.contains none)

theorem separable_tokens (side : ListSide) : Token.Separable side.tokens := by
  cases side <;> decide

theorem collect_congr {values others : List (Option ControlFlag)}
    (h : ∀ value, value ∈ values ↔ value ∈ others) : collect values = collect others := by
  have hflags : Control.ofList (values.filterMap id) = Control.ofList (others.filterMap id) := by
    apply Control.ofList_congr
    intro flag
    simp only [List.mem_filterMap, h]
  have hmissing : values.contains none = others.contains none := by
    rw [Bool.eq_iff_iff, List.contains_iff_mem, List.contains_iff_mem, h]
  rw [collect, collect, hflags, hmissing]

/-- Only the word for a missing list sets no flag. -/
theorem none_mem_map_flag? {side : ListSide} {marks : List ListMark} :
    none ∈ marks.map (ListMark.flag? side) ↔ .noAccessControl ∈ marks := by
  have hnone : ∀ mark : ListMark, mark.flag? side = none ↔ mark = .noAccessControl := by
    intro mark
    cases side <;> cases mark <;> decide
  simp [List.mem_map, hnone]

/-- **What is collected from marks is what the reader of list sections makes of them.** -/
theorem collect_map_flag? (side : ListSide) (marks : List ListMark) :
    collect (marks.map (ListMark.flag? side))
      = (ListMark.control side marks, marks.contains .noAccessControl) := by
  have hmissing : (marks.map (ListMark.flag? side)).contains none
      = marks.contains .noAccessControl := by
    rw [Bool.eq_iff_iff, List.contains_iff_mem, List.contains_iff_mem, none_mem_map_flag?]
  rw [collect, hmissing, List.filterMap_map, ListMark.control]
  rfl

/-- A run of marks is a run of what they stand for. -/
theorem run_tokens_iff {side : ListSide} {text : List Char}
    {values : List (Option ControlFlag)} :
    Token.Run side.tokens text values
      ↔ ∃ marks, Token.Run ListMark.tokens text marks ∧ values = marks.map (ListMark.flag? side) := by
  constructor
  · intro h
    induction h with
    | nil => exact ⟨[], .nil, rfl⟩
    | cons hrow _ ih =>
        obtain ⟨marks, hmarks, rfl⟩ := ih
        obtain ⟨row, hmem, rfl⟩ := List.mem_map.mp hrow
        exact ⟨row.2 :: marks, .cons hmem hmarks, rfl⟩
  · rintro ⟨marks, hmarks, rfl⟩
    induction hmarks with
    | nil => exact .nil
    | cons hrow _ ih => exact .cons (List.mem_map.mpr ⟨_, hrow, rfl⟩) ih

/-- **The reader of list sections scans the table of the list**: the marks that it finds stand for
the values in this table. -/
theorem run?_tokens (side : ListSide) (text : List Char) :
    Token.run? side.tokens text
      = (Token.run? ListMark.tokens text).map (List.map (ListMark.flag? side)) := by
  apply Option.ext
  intro values
  rw [Token.run?_eq_some_iff side.separable_tokens, run_tokens_iff, Option.map_eq_some_iff]
  simp only [Token.run?_eq_some_iff ListMark.separable_tokens, eq_comm]

end ListSide

/-! ### The tables in use -/

/-- **Runs of flags, of rights and of the marks of either list are read exactly**, and the marks that
the reader of list sections finds stand for what the table of the list says. -/
theorem Token.tables_scansExactly :
    ScansExactly Flags.tokens Flags.ofList ∧ ScansExactly Mask.rights Mask.union
      ∧ ∀ side : ListSide, ScansExactly side.tokens ListSide.collect
        ∧ ∀ text marks, ScansTo ListMark.tokens text marks →
          ScansTo side.tokens text (marks.map (List.map (ListMark.flag? side)))
            ∧ ∀ found ∈ marks, ListSide.collect (found.map (ListMark.flag? side))
              = (ListMark.control side found, found.contains .noAccessControl) := by
  have hflags := Flags.separable_tokens
  have hrights := Mask.separable_rights
  refine ⟨scansExactly hflags fun _ _ => Flags.ofList_congr,
    scansExactly hrights fun _ _ => Mask.union_congr, ?_⟩
  intro side
  refine ⟨scansExactly side.separable_tokens fun _ _ => ListSide.collect_congr, ?_⟩
  intro text marks hmarks
  rw [scansTo_iff ListMark.separable_tokens] at hmarks
  refine ⟨?_, ?_⟩
  · rw [scansTo_iff side.separable_tokens, side.run?_tokens, hmarks]
  · intro found _
    exact side.collect_map_flag? found

/-- Flags in another order with one of them twice, a right read on behind another one, and the same
marks for either list. -/
theorem Token.tables_scansExactly_repeated :
    (∃ values values', ScansTo Flags.tokens "OICI".toList (some values)
        ∧ ScansTo Flags.tokens "CIOICI".toList (some values')
        ∧ Flags.ofList values = Flags.ofList values')
      ∧ ScansTo Mask.rights ("GA".toList ++ "GR".toList) (some [0x10000000, 0x80000000])
      ∧ ∀ side : ListSide, ScansTo side.tokens "ARP".toList
          (some ([.autoInheritRequired, .shielded].map (ListMark.flag? side))) := by
  obtain ⟨hflags, hrights, hmarks⟩ := tables_scansExactly
  refine ⟨?_, ?_, ?_⟩
  · exact hflags.collects _ _ [("OI", .objectInherit), ("CI", .containerInherit)]
      [("CI", .containerInherit), ("OI", .objectInherit), ("CI", .containerInherit)]
      ⟨by decide, by decide⟩ ⟨by decide, by decide⟩ (by simp [or_comm])
  · have hfront : ScansTo Mask.rights "GA".toList (some [0x10000000]) :=
      (hrights.accepts _ _).mpr ⟨[("GA", 0x10000000)], ⟨by decide, by decide⟩, rfl⟩
    have hback : ScansTo Mask.rights "GR".toList (some [0x80000000]) :=
      (hrights.accepts _ _).mpr ⟨[("GR", 0x80000000)], ⟨by decide, by decide⟩, rfl⟩
    exact hrights.append _ _ _ _ hfront hback
  · intro side
    have hread : ScansTo ListMark.tokens "ARP".toList (some [.autoInheritRequired, .shielded]) :=
      (scansTo_iff ListMark.separable_tokens).mpr (by decide)
    exact ((hmarks side).2 _ _ hread).1

end SecurityDescriptor
