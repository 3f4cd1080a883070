/-
The program that reads identifiers from text by position, against the reader.

Main results:

* `Sid.scanSubAuthorities_eq` — the loop over the components that are left;
* `Sid.scan_eq` — **the program comes to what the reader reads** and never traps.
-/

import SecurityDescriptor.Proofs.Sid.Grammar
import SecurityDescriptor.Proofs.Text.Slice
import SecurityDescriptor.Scanning

set_option relaxedAutoImplicit false
set_option autoImplicit false

namespace SecurityDescriptor

open Checked

namespace Sid

/-- A component with a hyphen behind it takes up one byte more. -/
theorem width_flatMap_cons (piece : List Char) (pieces : List (List Char)) :
    Text.width ((piece :: pieces).flatMap (· ++ ['-']))
      = Text.width piece + 1 + Text.width (pieces.flatMap (· ++ ['-'])) := by
  rw [List.flatMap_cons, Text.width_append, Text.width_append]
  rfl

/-- The position of a component and of what is behind it are inside the text. -/
theorem Components.next_cons {position : Nat} {component : List Char} {rest : List (List Char)}
    (h : position + Text.width ((component :: rest).flatMap (· ++ ['-'])) < wordLimit) :
    next ⟨position, component :: rest⟩
      = pure (some (position, component), ⟨position + (Text.width component + 1), rest⟩) := by
  rw [width_flatMap_cons] at h
  rw [next, add_eq (by omega), pure_bind, add_eq (by omega), pure_bind]

/-- **The loop reads the sub-authorities that are left** behind those that were read. -/
theorem scanSubAuthorities_eq {room position : Nat} {read : List UInt32}
    {components : List (List Char)} (hroom : read.length + room = maxCount)
    (h : position + Text.width (components.flatMap (· ++ ['-'])) < wordLimit) :
    scanSubAuthorities position read components
      = settled ((parseSubAuthorities room position components).map (read ++ ·)) := by
  induction components generalizing room position read with
  | nil =>
      rw [scanSubAuthorities, parseSubAuthorities, Except.map, List.append_nil]
      rfl
  | cons component components ih =>
      rw [width_flatMap_cons] at h
      rw [scanSubAuthorities, add_eq (by omega), pure_bind, add_eq (by omega), pure_bind,
        parseSubAuthorities.eq_def]
      dsimp only
      cases Numeral.read? 10 (UInt32.size - 1) component with
      | none => rfl
      | some value =>
          rw [required_some, pure_bind]
          cases room with
          | zero =>
              rw [if_pos (by omega)]
              rfl
          | succ room =>
              have hlength : (read ++ [UInt32.ofNat value]).length + room = maxCount := by
                rw [List.length_append, List.length_singleton]
                omega
              rw [if_neg (by omega), ih hlength (by omega), ← Nat.add_assoc]
              dsimp only
              cases parseSubAuthorities room (position + Text.width component + 1) components with
              | error e => rfl
              | ok values => simp [Except.map]

/-- The parts of an identifier are read one after the other. -/
theorem scanParts_eq {position : Nat} {authority : List Char} {components : List (List Char)}
    (h : position + Text.width ((authority :: components).flatMap (· ++ ['-'])) < wordLimit) :
    (do
      let value ← settled (parseAuthority position authority)
      let values ← scanSubAuthorities (position + (Text.width authority + 1)) [] components
      settled (make value values))
    = settled (do
      let value ← parseAuthority position authority
      let values ← parseSubAuthorities maxCount (position + Text.width authority + 1) components
      make value values) := by
  rw [width_flatMap_cons, ← Nat.add_assoc] at h
  have hnone : ([] : List UInt32).length + maxCount = maxCount := Nat.zero_add _
  rw [scanSubAuthorities_eq hnone h, ← Nat.add_assoc]
  cases parseAuthority position authority with
  | error e => rfl
  | ok value =>
      cases parseSubAuthorities maxCount (position + Text.width authority + 1) components with
      | error e => rfl
      | ok values => rfl

/-- The program that goes through the components comes to what their reader reads. -/
theorem scanComponents_eq {width : Nat} {components : List (List Char)}
    (h : Text.width (components.flatMap (· ++ ['-'])) < wordLimit) :
    scanComponents width ⟨0, components⟩ = settled (parseComponents width components) := by
  rw [← Nat.zero_add (Text.width _)] at h
  rw [scanComponents, parseComponents.eq_def]
  cases components with
  | nil => rfl
  | cons lead components =>
      rw [Components.next_cons h, pure_bind]
      dsimp only
      by_cases hlead : lead = ['S'] ∨ lead = ['s']
      · have hwidth : Text.width lead = 1 := by rcases hlead with rfl | rfl <;> rfl
        have hfound : (some (0, lead)).map Prod.snd = some ['S']
            ∨ (some (0, lead)).map Prod.snd = some ['s'] := by simpa using hlead
        rw [if_pos hfound, if_pos hlead]
        rw [width_flatMap_cons, ← Nat.add_assoc, hwidth] at h
        rw [hwidth]
        cases components with
        | nil => rfl
        | cons revision components =>
            rw [Components.next_cons h, pure_bind]
            dsimp only
            rw [required_some, pure_bind]
            by_cases hrevision : revision = ['1']
            · subst hrevision
              rw [if_neg (fun h => h rfl), if_neg (fun h => h rfl)]
              rw [width_flatMap_cons, ← Nat.add_assoc] at h
              cases components with
              | nil => rfl
              | cons authority components =>
                  rw [Components.next_cons h, pure_bind]
                  dsimp only
                  rw [required_some, pure_bind]
                  exact scanParts_eq h
            · rw [if_pos hrevision, if_pos hrevision]
              rfl
      · have hmissed : ¬((some (0, lead)).map Prod.snd = some ['S']
            ∨ (some (0, lead)).map Prod.snd = some ['s']) := by simpa using hlead
        rw [if_neg hmissed, if_neg hlead]
        rfl

/-- **The program comes to what the reader reads**, and never traps. -/
theorem scan_eq {text : List Char} (h : Text.width text < sliceLimit) :
    scan text = settled (parse text) := by
  have hlimit := sliceLimit_add_le
  have hinside : Text.width ((text.splitOn '-').flatMap (· ++ ['-'])) < wordLimit := by
    rw [Text.flatMap_splitOn, Text.width_append, show Text.width ['-'] = 1 from rfl]
    omega
  rw [scan, parse]
  cases abbreviated? text with
  | some row => rfl
  | none =>
      dsimp only
      split
      · rfl
      · exact scanComponents_eq hinside

end Sid

end SecurityDescriptor
