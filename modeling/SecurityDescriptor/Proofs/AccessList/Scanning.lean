/-
The program that reads lists from text by position, against the reader.

Entries are cut off the text in a loop.  Each round finds the parenthesis that closes an entry and
goes on behind it, so the text gets shorter and the loop ends.

Main results:

* `AccessList.Tokens.scanFrom_eq` — **the loop over the entries ends** with what the reader cuts;
* `AccessList.scan_eq` — **the program comes to what the reader reads** and never traps.
-/

import SecurityDescriptor.Proofs.AccessList.Text
import SecurityDescriptor.Proofs.Entry.Scanning

set_option relaxedAutoImplicit false
set_option autoImplicit false

namespace SecurityDescriptor

open Checked

namespace AccessList

/-- The entries that are cut off a text that starts at `position`, behind those in `entries`. -/
def cutFrom (entries : List (List Char)) (position : Nat) (text : List Char) :
    Except Error (List (List Char)) := do
  let cutting ← text.foldlM Cutting.step ⟨entries, position, none⟩
  cutting.finish

variable {entries : List (List Char)} {position : Nat}

theorem cutFrom_of_ne {c : Char} (hc : c ≠ '(') (text : List Char) :
    cutFrom entries position (c :: text) = .error (.list .entryNotOpened position) := by
  rw [cutFrom, List.foldlM_cons, Cutting.step]
  dsimp only
  rw [if_neg hc]
  rfl

/-- An entry that is never closed. -/
theorem cutFrom_open {text : List Char} (h : ')' ∉ text) :
    cutFrom entries position ('(' :: text) = .error (.list .entryNotClosed position) := by
  have hfirst : Cutting.step ⟨entries, position, none⟩ '(' = .ok ⟨entries, position, some []⟩ := rfl
  rw [cutFrom, List.foldlM_cons, hfirst, Outcome.ok_bind, Cutting.foldlM_step_inside h]
  rfl

/-- An entry that is closed but empty, or has another one in it. -/
theorem cutFrom_bad {token : List Char} (hclose : ')' ∉ token) (hbad : token = [] ∨ '(' ∈ token)
    (rest : List Char) :
    cutFrom entries position ('(' :: (token ++ ')' :: rest))
      = .error (.list .entryEmptyOrNested position) := by
  have hfirst : Cutting.step ⟨entries, position, none⟩ '(' = .ok ⟨entries, position, some []⟩ := rfl
  have hreversed : token.reverse ++ [] = [] ∨ '(' ∈ token.reverse ++ [] := by simpa using hbad
  rw [cutFrom, List.foldlM_cons, hfirst, Outcome.ok_bind, List.foldlM_append,
    Cutting.foldlM_step_inside hclose, Outcome.ok_bind, List.foldlM_cons, Cutting.step]
  dsimp only
  rw [if_pos rfl, if_pos hreversed]
  rfl

/-- An entry is cut off, and the rest of the text after it. -/
theorem cutFrom_enclose {token : List Char} (h : IsToken token) (rest : List Char) :
    cutFrom entries position ('(' :: (token ++ ')' :: rest))
      = cutFrom (token :: entries) (position + (Text.width token + 2)) rest := by
  have hsplit : '(' :: (token ++ ')' :: rest) = enclose token ++ rest := by simp [enclose]
  rw [cutFrom, hsplit, List.foldlM_append, Cutting.foldlM_step_enclose h, Outcome.ok_bind,
    Text.width_reverse, Nat.add_assoc]
  rfl

/-- **The loop over the entries cuts what the reader cuts.**  Each round cuts an entry off the text,
so it ends. -/
theorem Tokens.scanFrom_eq {rest : List Char} (h : position + Text.width rest < wordLimit) :
    Tokens.scanFrom entries position rest = Looping.settled (cutFrom entries position rest) := by
  induction hn : rest.length using Nat.strongRecOn generalizing entries position rest with
  | ind n ih =>
      rw [Tokens.scanFrom.eq_def]
      cases rest with
      | nil => rfl
      | cons c inner =>
          dsimp only
          by_cases hc : c = '('
          · subst hc
            rw [if_neg (fun h => h rfl)]
            by_cases hclose : ')' ∈ inner
            · obtain ⟨token, rest, rfl, htoken⟩ := Text.exists_split_of_mem hclose
              rw [Text.find?_append htoken, required_some, Looping.lift_pure, pure_bind,
                before_append, Looping.lift_pure, pure_bind]
              by_cases hbad : token = [] ∨ '(' ∈ token
              · rw [if_pos hbad, cutFrom_bad htoken hbad]
                rfl
              · obtain ⟨hne, hnested⟩ := not_or.mp hbad
                simp only [Text.width_cons, Text.width_append] at h
                have hopen : '('.utf8Size = 1 := rfl
                have hend : ')'.utf8Size = 1 := rfl
                have hbehind : behind (token ++ ')' :: rest) (Text.width token + 1) = pure rest := by
                  have happend := behind_append (token ++ [')']) rest
                  rwa [Text.width_append, List.append_assoc] at happend
                have hlength : rest.length < n := by
                  rw [← hn, List.length_cons, List.length_append, List.length_cons]
                  omega
                rw [if_neg hbad, add_eq (by omega), Looping.lift_pure, pure_bind, add_eq (by omega),
                  Looping.lift_pure, pure_bind, add_eq (by omega), Looping.lift_pure, pure_bind,
                  hbehind, Looping.lift_pure, pure_bind, ih _ hlength (by omega) rfl,
                  cutFrom_enclose ⟨hne, hnested, htoken⟩]
            · rw [Text.find?_eq_none hclose, required_none, cutFrom_open hclose]
              rfl
          · rw [if_pos hc, cutFrom_of_ne hc]
            rfl

theorem scanEntries_eq {text : List Char} (h : Text.width text < sliceLimit) :
    scanEntries text = Looping.settled (splitEntries text) := by
  have hlimit := sliceLimit_add_le
  exact Tokens.scanFrom_eq (by omega)

/-- The text of an entry is no longer than that of the list. -/
theorem width_lt_of_splitEntries {limit : Nat} {text : List Char} {tokens : List (List Char)}
    (h : Text.width text < limit) (htokens : splitEntries text = .ok tokens) :
    ∀ token ∈ tokens, Text.width token < limit := by
  obtain ⟨rfl, -⟩ := splitEntries_eq_ok_iff.mp htokens
  intro token htoken
  obtain ⟨front, back, rfl⟩ := List.append_of_mem htoken
  rw [List.flatMap_append, List.flatMap_cons, enclose] at h
  simp only [Text.width_append, Text.width_cons] at h
  omega

/-- **The program comes to what the reader reads**, and never traps. -/
theorem scan_eq {decode : HexDecoder} (hdecode : decode.DecodesPairs) {text : List Char}
    (h : Text.width text < sliceLimit) :
    scan decode text = Looping.settled (parse text) := by
  rw [scan, scanEntries_eq h, parse]
  cases htokens : splitEntries text with
  | error e => rfl
  | ok tokens =>
      have hentries : tokens.mapM (Entry.scan decode)
          = Looping.settled (tokens.mapM Entry.parse) :=
        Looping.mapM_settled fun token htoken =>
          Entry.scan_eq hdecode (width_lt_of_splitEntries h htokens token htoken)
      rw [Looping.settled_ok, pure_bind, Outcome.ok_bind]
      split
      · rfl
      · rw [hentries]
        exact Looping.settled_bind ..

end AccessList

end SecurityDescriptor
