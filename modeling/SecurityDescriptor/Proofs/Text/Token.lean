/-
**Runs of tokens are cut in one way.**

A run of tokens has no separators, and the reader always takes the longest token that fits.  In a
table in which no token begins another one there is never a choice: at most one token fits, and the
run is cut as it was put together.  The reader then accepts exactly the concatenations of tokens of
the table, whatever their order and however often each occurs, and returns their values.

Main definitions:

* `Token.Separable` — no token of a table is empty or begins another one;
* `Token.Run` — a text that is a concatenation of tokens, with their values.

Main results:

* `Token.longest?_append` — in a separable table the token in front is the one that is taken;
* `Token.run?_eq_some_iff` — **the reader accepts exactly the runs**;
* `Token.run_flatMap_ite` — what is written for the values that pass a test is a run of them;
* `Token.Run.values_unique`, `Token.Run.forall_char` — the values of a run, and its characters.
-/

import Mathlib.Data.List.Infix
import SecurityDescriptor.Text.Token

set_option relaxedAutoImplicit false
set_option autoImplicit false

namespace SecurityDescriptor

namespace Token

variable {α : Type}

/-- No token of the table is empty or begins another one. -/
def Separable (table : Table α) : Prop :=
  (∀ row ∈ table, row.1.toList ≠ []) ∧
    ∀ a ∈ table, ∀ b ∈ table, a.1.toList <+: b.1.toList → a = b

instance [DecidableEq α] (table : Table α) : Decidable (Separable table) :=
  inferInstanceAs (Decidable (_ ∧ _))

/-- **A text that is a concatenation of tokens**, with their values. -/
inductive Run (table : Table α) : List Char → List α → Prop
  | nil : Run table [] []
  | cons {row : String × α} {text : List Char} {values : List α} (hrow : row ∈ table)
      (hrest : Run table text values) : Run table (row.1.toList ++ text) (row.2 :: values)

/-! ### The token in front -/

/-- What is taken is a token of the table that fits. -/
theorem mem_of_longest? {table : Table α} {text token : List Char} {value : α}
    (h : longest? table text = some (token, value)) :
    ∃ row ∈ table, token = row.1.toList ∧ value = row.2 ∧ token <+: text := by
  induction table with
  | nil => cases h
  | cons row table ih =>
      obtain ⟨name, v⟩ := row
      rw [longest?] at h
      -- Either the row at the head is taken, or what the rest of the table gives.
      have hhead : name.toList.isPrefixOf text = true → token = name.toList → value = v →
          ∃ row ∈ (name, v) :: table, token = row.1.toList ∧ value = row.2 ∧ token <+: text := by
        rintro hfit rfl rfl
        exact ⟨_, List.mem_cons_self .., rfl, rfl, List.isPrefixOf_iff_prefix.1 hfit⟩
      have htail : longest? table text = some (token, value) →
          ∃ row ∈ (name, v) :: table, token = row.1.toList ∧ value = row.2 ∧ token <+: text := by
        intro hrest
        obtain ⟨row, hmem, hrow⟩ := ih hrest
        exact ⟨row, List.mem_cons_of_mem _ hmem, hrow⟩
      split at h
      · rename_i best hbest
        split at h
        · rename_i hlonger
          cases h
          exact hhead hlonger.1 rfl rfl
        · cases h
          exact htail hbest
      · split at h
        · rename_i hfit
          cases h
          exact hhead hfit rfl rfl
        · cases h

/-- If a token of the table fits, then one is taken. -/
theorem longest?_isSome {table : Table α} {text : List Char} {row : String × α}
    (hrow : row ∈ table) (hfit : row.1.toList <+: text) : (longest? table text).isSome := by
  induction table with
  | nil => exact (List.not_mem_nil hrow).elim
  | cons head table ih =>
      obtain ⟨name, v⟩ := head
      rw [longest?]
      split
      · split <;> rfl
      · rename_i hnone
        rcases List.mem_cons.1 hrow with rfl | hmem
        · rw [if_pos (List.isPrefixOf_iff_prefix.2 hfit)]
          rfl
        · have hsome := ih hmem
          rw [hnone] at hsome
          cases hsome

/-- **In a separable table the token in front is the one that is taken.** -/
theorem longest?_append {table : Table α} (hsep : Separable table) {row : String × α}
    (hrow : row ∈ table) (rest : List Char) :
    longest? table (row.1.toList ++ rest) = some (row.1.toList, row.2) := by
  obtain ⟨⟨token, value⟩, htaken⟩ :=
    Option.isSome_iff_exists.1 (longest?_isSome hrow (List.prefix_append row.1.toList rest))
  obtain ⟨row', hrow', rfl, rfl, hfit⟩ := mem_of_longest? htaken
  -- Both tokens begin the text, so one begins the other, and the two rows are the same.
  have hsame : row' = row := by
    rcases List.prefix_or_prefix_of_prefix hfit (List.prefix_append row.1.toList rest) with h | h
    · exact hsep.2 row' hrow' row hrow h
    · exact (hsep.2 row hrow row' hrow' h).symm
  rw [htaken, hsame]

/-! ### Whole runs -/

/-- Skipping characters is dropping them. -/
theorem runFrom?_drop (table : Table α) (read : List α) (skip : Nat) (text : List Char) :
    runFrom? table read skip text = runFrom? table read 0 (text.drop skip) := by
  induction skip generalizing text with
  | zero => rfl
  | succ skip ih =>
      cases text with
      | nil => rfl
      | cons c text => exact ih text

/-- Behind a token that was read the run goes on with the rest of the text. -/
theorem runFrom?_append {table : Table α} (hsep : Separable table) {row : String × α}
    (hrow : row ∈ table) (read : List α) (rest : List Char) :
    runFrom? table read 0 (row.1.toList ++ rest) = runFrom? table (row.2 :: read) 0 rest := by
  have htaken := longest?_append hsep hrow rest
  cases htoken : row.1.toList with
  | nil => exact (hsep.1 row hrow htoken).elim
  | cons c token =>
      rw [htoken, List.cons_append] at htaken
      rw [List.cons_append, runFrom?, htaken]
      dsimp only
      rw [runFrom?_drop, List.length_cons, Nat.add_sub_cancel, List.drop_left]

/-- What the reader does behind values that were read already. -/
theorem runFrom?_eq_some_iff {table : Table α} (hsep : Separable table) {read values : List α}
    {text : List Char} :
    runFrom? table read 0 text = some values
      ↔ ∃ rest, Run table text rest ∧ values = read.reverse ++ rest := by
  constructor
  · intro h
    -- Each token shortens the text, so the induction is on its length.
    induction hlength : text.length using Nat.strongRecOn generalizing text read with
    | ind n ih =>
        subst hlength
        cases text with
        | nil =>
            cases h
            exact ⟨[], .nil, (List.append_nil _).symm⟩
        | cons c text =>
            cases htaken : longest? table (c :: text) with
            | none => simp [runFrom?, htaken] at h
            | some best =>
                obtain ⟨token, value⟩ := best
                obtain ⟨row, hrow, rfl, rfl, rest, hrest⟩ := mem_of_longest? htaken
                rw [← hrest, runFrom?_append hsep hrow] at h
                have hpos : 0 < row.1.toList.length := List.length_pos_iff.2 (hsep.1 row hrow)
                have hshort : rest.length < (c :: text).length := by
                  rw [← hrest, List.length_append]
                  omega
                obtain ⟨values', hrun, rfl⟩ := ih _ hshort h rfl
                refine ⟨row.2 :: values', hrest ▸ .cons hrow hrun, ?_⟩
                rw [List.reverse_cons, List.append_assoc, List.singleton_append]
  · rintro ⟨rest, hrun, rfl⟩
    -- Here the induction is on the run, which gives the token in front at each step.
    induction hrun generalizing read with
    | nil => simp [runFrom?]
    | cons hrow _ ih =>
        rw [runFrom?_append hsep hrow, ih, List.reverse_cons, List.append_assoc,
          List.singleton_append]

/-- **The reader accepts exactly the runs.** -/
theorem run?_eq_some_iff {table : Table α} (hsep : Separable table) {text : List Char}
    {values : List α} : run? table text = some values ↔ Run table text values := by
  rw [run?, runFrom?_eq_some_iff hsep]
  simp only [List.reverse_nil, List.nil_append, exists_eq_right']

/-- A run has one list of values. -/
theorem Run.values_unique {table : Table α} (hsep : Separable table) {text : List Char}
    {a b : List α} (ha : Run table text a) (hb : Run table text b) : a = b := by
  rw [← run?_eq_some_iff hsep] at ha hb
  exact Option.some.inj (ha.symm.trans hb)

/-- Writing the tokens of those values that pass a test gives a run of these values. -/
theorem run_flatMap_ite {table rows : Table α} (hrows : ∀ row ∈ rows, row ∈ table)
    (p : α → Bool) :
    Run table (rows.flatMap fun row => if p row.2 then row.1.toList else [])
      ((rows.map Prod.snd).filter p) := by
  induction rows with
  | nil => exact .nil
  | cons row rows ih =>
      have hrest := ih fun other hother => hrows other (List.mem_cons_of_mem _ hother)
      rw [List.flatMap_cons, List.map_cons, List.filter_cons]
      split
      · exact .cons (hrows row (List.mem_cons_self ..)) hrest
      · exact hrest

/-- What holds of all characters of the tokens holds of all characters of a run. -/
theorem Run.forall_char {table : Table α} {p : Char → Prop}
    (hp : ∀ row ∈ table, ∀ c ∈ row.1.toList, p c) {text : List Char} {values : List α}
    (h : Run table text values) : ∀ c ∈ text, p c := by
  induction h with
  | nil => exact fun _ h => (List.not_mem_nil h).elim
  | cons hrow _ ih =>
      intro c hc
      rcases List.mem_append.1 hc with hc | hc
      · exact hp _ hrow c hc
      · exact ih c hc

end Token

end SecurityDescriptor
