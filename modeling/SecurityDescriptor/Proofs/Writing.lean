/-
**Identifiers, entries and lists are written as their binary forms.**

The binary form of a value is stated once, as a list of bytes.  The programs of these three kinds
only append, and each of their steps appends one piece of that list.  The sizes that they write into
headers are worked out on machine words; those of well-formed values are far from the limits.

Main results:

* `Sid.appends`, `Entry.appends`, `AccessList.appends` — **the programs append the binary forms**;
* `Entry.measure_eq`, `AccessList.measure_eq` — sizes are worked out without a trap;
* `Sid.writes`, `Entry.writes`, `AccessList.writes` — **the encoders of a kind agree**.
-/

import SecurityDescriptor.Proofs.AccessList.Layout
import SecurityDescriptor.Proofs.Buffer
import SecurityDescriptor.Proofs.Entry.Positional
import SecurityDescriptor.Writing

set_option relaxedAutoImplicit false
set_option autoImplicit false

namespace SecurityDescriptor

open Checked Buffer.InPlace

/-! ### Identifiers -/

namespace Sid

theorem appends (s : Sid) : Appends s.write s.encode := by
  have hauthority : (Octets.big 8 s.authority).drop 2 = Octets.big 6 s.authority :=
    Octets.drop_big 2 6 s.authority
  have hbeyond : beyond (Octets.big 8 s.authority) 2 = pure (Octets.big 6 s.authority) := by
    rw [beyond_eq (by simp), hauthority]
  have hwords : Appends (s.subAuthorities.forM fun sub => writeBytes (Octets.little 4 sub.toNat))
      (encodeWords s.subAuthorities) :=
    appends_forM fun _ _ => appends_writeBytes _
  refine (appends_writeByte revision).bind ?_
  refine (appends_writeByte (.ofNat s.count)).bind ?_
  refine .aside hbeyond ?_
  exact (appends_writeBytes _).bind hwords

theorem writes (s : Sid) : s.form.Writes s.encode := by
  refine Buffer.Form.writes ?_ ?_ fun before _ => s.appends before
  · simp [Sid.encode]
  · rw [Sid.length_encode]
    exact s.measure_eq

end Sid

/-! ### Entries -/

namespace Entry

theorem appends_writeBody (body : Body) : Appends (writeBody body) (encodeBody body) := by
  cases body with
  | common rule =>
      refine (appends_writeBytes _).bind ?_
      exact rule.sid.appends.bind (appends_writeBytes _)
  | object rule target =>
      have hguids : Appends (target.guids.forM fun guid => writeBytes guid.encode)
          (target.guids.flatMap Guid.encode) :=
        appends_forM fun _ _ => appends_writeBytes _
      refine (appends_writeBytes _).bind ?_
      refine (appends_writeBytes _).bind ?_
      refine hguids.bind ?_
      exact rule.sid.appends.bind (appends_writeBytes _)
  | compound mask sid =>
      refine (appends_writeBytes _).bind ?_
      refine (appends_writeBytes _).bind ?_
      exact (appends_writeBytes _).bind sid.appends
  | custom code extra => exact appends_writeBytes extra

/-- The sizes of well-formed values are worked out without a trap. -/
theorem measure_eq {entry : Entry} (h : entry.body.WellFormed) :
    entry.body.measure = pure entry.size :=
  Body.measure_eq (Nat.lt_of_le_of_lt h.size_le (by decide))

theorem appends {entry : Entry} (h : entry.body.WellFormed) :
    Appends entry.write entry.encode := by
  have hheader : Appends (entry.writeHeader entry.size)
      (entry.code :: .ofNat entry.flags.bits.toNat :: Octets.little 2 entry.size) := by
    refine (appends_writeByte _).bind ?_
    exact (appends_writeByte _).bind (appends_writeBytes _)
  exact .aside (measure_eq h) (hheader.bind (appends_writeBody entry.body))

theorem writes {entry : Entry} (h : entry.body.WellFormed) :
    entry.form.Writes entry.encode := by
  refine Buffer.Form.writes ?_ ?_ fun before _ => Entry.appends h before
  · simp [Entry.encode]
  · rw [Entry.length_encode]
    exact Entry.measure_eq h

end Entry

/-! ### Lists -/

namespace AccessList

/-- Sizes add up without a trap as long as the sum fits. -/
theorem foldlM_measure {entries : List Entry} {start : Nat}
    (hentries : ∀ entry ∈ entries, entry.body.WellFormed)
    (h : start + entriesSize entries < wordLimit) :
    entries.foldlM (fun total entry => do add total (← entry.body.measure)) start
      = (pure (start + entriesSize entries) : Checked Nat) := by
  induction entries generalizing start with
  | nil => rfl
  | cons entry entries ih =>
      rw [entriesSize_cons] at h ⊢
      have hentry := Entry.measure_eq (hentries entry (List.mem_cons_self ..))
      have hrest := ih (fun other hother => hentries other (List.mem_cons_of_mem _ hother))
        (show start + entry.size + entriesSize entries < wordLimit by omega)
      rw [List.foldlM_cons, hentry, pure_bind, add_eq (by omega), pure_bind, hrest, Nat.add_assoc]

variable {list : AccessList}

theorem WellFormed.size_lt (h : list.WellFormed) : list.size < wordLimit :=
  Nat.lt_of_le_of_lt h.size_le (by decide)

theorem measure_eq (h : list.WellFormed) : list.measure = pure list.size := by
  have hlt := h.size_lt
  rw [size] at hlt
  rw [measure, foldlM_measure h.entries (by omega), pure_bind, Nat.zero_add, add_eq hlt]
  rfl

theorem appends (h : list.WellFormed) : Appends list.write list.encode := by
  have hentries : Appends (list.entries.forM Entry.write) (list.entries.flatMap Entry.encode) :=
    appends_forM fun entry hentry => Entry.appends (h.entries entry hentry)
  refine (appends_writeByte _).bind ?_
  refine (appends_writeByte _).bind ?_
  refine .aside (measure_eq h) ?_
  refine (appends_writeBytes _).bind ?_
  refine (appends_writeBytes _).bind ?_
  exact (appends_writeBytes _).bind hentries

theorem writes {list : AccessList} (h : list.WellFormed) :
    list.form.Writes list.encode := by
  refine Buffer.Form.writes ?_ ?_ fun before _ => AccessList.appends h before
  · simp [AccessList.encode]
  · rw [AccessList.length_encode]
    exact AccessList.measure_eq h

end AccessList

end SecurityDescriptor
