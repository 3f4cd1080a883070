/-
The programs that read tokens, masks and entries from text, against the readers.

A run of tokens is read by a loop that takes one token after the other off the text.  No token is
empty, so the text gets shorter with every round and the loop ends.  All the rest is cut at
semicolons, and each field is read by a program of its own.

Main results:

* `Token.Table.scanFrom_eq` — **the loop over a run of tokens ends** with what the reader reads;
* `Mask.scan_eq` — the program that reads a mask;
* `Entry.scan_eq` — **the program that reads an entry comes to what the reader reads**, and never
  traps.
-/

import SecurityDescriptor.Proofs.Entry.Mask
import SecurityDescriptor.Proofs.Entry.Text
import SecurityDescriptor.Proofs.Guid.Scanning
import SecurityDescriptor.Proofs.Sid.Scanning

set_option relaxedAutoImplicit false
set_option autoImplicit false

namespace SecurityDescriptor

open Checked

namespace Token

variable {α : Type}

/-- **The loop reads what is left of a run of tokens.**  Each round takes a token off the text, so it
ends. -/
theorem Table.scanFrom_eq {table : Table α} (htable : ∀ row ∈ table, row.1.toList ≠ []) (read : List α)
    (rest : List Char) : table.scanFrom read rest = pure (runFrom? table read 0 rest) := by
  induction hn : rest.length using Nat.strongRecOn generalizing read rest with
  | ind n ih =>
      rw [Table.scanFrom]
      cases rest with
      | nil => rfl
      | cons c text =>
          rw [if_neg (List.cons_ne_nil c text), runFrom?]
          cases hlongest : longest? table (c :: text) with
          | none => rfl
          | some best =>
              obtain ⟨token, value⟩ := best
              obtain ⟨row, hrow, rfl, rfl, rest, hrest⟩ := mem_of_longest? hlongest
              obtain ⟨d, token, htoken⟩ := List.exists_cons_of_ne_nil (htable row hrow)
              have hlength : rest.length < n := by
                rw [← hn, ← hrest, htoken, List.length_append, List.length_cons]
                omega
              have htext : text = token ++ rest := by
                rw [htoken] at hrest
                exact (List.cons.inj hrest).2.symm
              have hskip : runFrom? table (row.2 :: read) (row.1.toList.length - 1) text
                  = runFrom? table (row.2 :: read) 0 rest := by
                rw [runFrom?_drop, htoken, htext, List.length_cons, Nat.add_sub_cancel,
                  List.drop_left]
              dsimp only
              rw [hskip, ← hrest, behind_append, Looping.lift_pure, pure_bind,
                ih _ hlength _ _ rfl]

/-- A run of tokens is read by a loop that ends. -/
theorem scan_eq {table : Table α} (htable : ∀ row ∈ table, row.1.toList ≠ []) (text : List Char) :
    scan table text = pure (run? table text) := Table.scanFrom_eq htable [] text

end Token

namespace Mask

/-- **The program reads what the reader reads.** -/
theorem scan_eq (text : List Char) : scan text = Looping.settled (parse text) := by
  rw [scan, parse]
  split
  · rfl
  · cases hexDigits? text with
    | some digits =>
        dsimp only
        cases parseHex? digits <;> rfl
    | none =>
        dsimp only
        rw [Token.scan_eq separable_rights.1, pure_bind]
        cases Token.run? rights text with
        | some masks => rfl
        | none => cases parseHex? text <;> rfl

end Mask

namespace Entry

variable {decode : HexDecoder}

theorem scanGuid_eq (hdecode : decode.DecodesPairs) (field : List Char) :
    scanGuid decode field = settled (parseGuid field) := by
  rw [scanGuid, parseGuid]
  split
  · rfl
  · rw [Guid.scan_eq hdecode]
    cases Guid.parse field <;> rfl

theorem scanFields_eq (hdecode : decode.DecodesPairs)
    {kind flags mask objectType inheritedType sid : List Char}
    (hsid : Text.width sid < sliceLimit) :
    scanFields decode kind flags mask objectType inheritedType sid
      = Looping.settled (parseFields kind flags mask objectType inheritedType sid) := by
  rw [scanFields, parseFields]
  cases Kind.ofToken? kind with
  | none => rfl
  | some kind =>
      cases kind with
      | compound => rfl
      | standard qualifier callback isObject =>
          dsimp only
          rw [Token.scan_eq Flags.separable_tokens.1, pure_bind, Flags.parse?]
          cases Token.run? Flags.tokens flags with
          | none => rfl
          | some list =>
              rw [required_some, Looping.lift_pure, pure_bind, Mask.scan_eq, scanGuid_eq hdecode,
                scanGuid_eq hdecode, Sid.scan_eq hsid]
              simp only [Looping.lift_settled, Option.map_some, Looping.settled_bind]

/-- **The program comes to what the reader reads**, and never traps. -/
theorem scan_eq (hdecode : decode.DecodesPairs) {text : List Char}
    (h : Text.width text < sliceLimit) :
    scan decode text = Looping.settled (parse text) := by
  rw [scan]
  split
  · rename_i kind flags mask objectType inheritedType sid hfields
    have hmem : sid ∈ text.splitOn ';' := by simp [hfields]
    rw [parse, hfields]
    exact scanFields_eq hdecode (Nat.lt_of_le_of_lt (Text.width_le_of_mem_splitOn hmem) h)
  · rename_i hcount
    have hparse : parse text = .error (.entry .fieldCount
        (if (text.splitOn ';').length < fieldCount then 0 else Text.width text)) := by
      rw [parse]
      split
      · rename_i hfields
        exact (hcount _ _ _ _ _ _ hfields).elim
      · rfl
    rw [hparse]
    rfl

end Entry

end SecurityDescriptor
