/-
**The life of a list that was made up.**

A descriptor without a discretionary list can be given one that grants everyone everything.  As long
as it only stands in for the missing list it leaves no trace in the binary form: bytes, slots and
presence flag are those of a descriptor without a list, whatever the presence flag meant before and
whatever else is changed.  The first edit takes it up.  From then on it is a list like any other,
even if the edit itself is refused: it is stored, marked as present, followed through later changes,
and in the way of another one being made up, until it is taken away.

Which changes move a descriptor between the three states of its list is said once for one change and
then for a run.  What the binary form shows in a state is a matter of one descriptor.

Main definitions:

* `Descriptor.attemptSynthesis` — making a list up from parts that are checked;
* `Descriptor.StandsIn`, `Descriptor.Holds` — what the binary form and the flags show of a list that
  was made up, and of one that is stored;
* `Descriptor.Change.sparesDacl`, `Descriptor.Change.keepsDacl`, `Descriptor.Change.follow` — the
  changes that leave a synthetic list alone, those that do not take a stored list away, and what
  becomes of a stored list;
* `Descriptor.TakenUp` — what the first edit does and what follows from it.

Main results:

* `Descriptor.attemptSynthesis_eq_ok` — **no check stands in the way of the list that is made up**;
* `Descriptor.WellFormed.standsIn`, `Descriptor.WellFormed.holds` — the state of the list decides
  what is shown of it;
* `Descriptor.dacl_run_of_sparesDacl`, `Descriptor.dacl_run_of_keepsDacl` — the state along a run;
* `Descriptor.Reachable.synthetic_lifeCycle` — **the life of a list that was made up**.
-/

import SecurityDescriptor.Proofs.Descriptor.Layout
import SecurityDescriptor.Proofs.Descriptor.Run
import SecurityDescriptor.Sid.WellKnown

set_option relaxedAutoImplicit false
set_option autoImplicit false

namespace SecurityDescriptor

namespace Descriptor

/-! ### Making a list up -/

/-- The principal that stands for everyone. -/
def world : WellKnown := WellKnown.registry[1]

/-- A list made up from its parts, each of which is checked as it would be if it were given. -/
def attemptSynthesis (d : Descriptor) (directory container : Bool) :
    Except Error (Bool × Descriptor) :=
  match d.dacl with
  | .absent => do
      let sid ← world.toSid none
      let entry ← Entry.ofCommon
        (if container then Flags.ofList [.objectInherit, .containerInherit] else .none)
        ⟨.allow, false, 0xFFFFFFFF, sid, []⟩
      let list ← AccessList.ofEntries
        (if directory then AccessList.directoryRevision else AccessList.plainRevision) [entry]
      return (true, settle { d with dacl := .synthetic list })
  | _ => .ok (false, d)

/-- **No check stands in the way of the list that is made up.** -/
theorem attemptSynthesis_eq_ok (d : Descriptor) (directory container : Bool) :
    d.attemptSynthesis directory container = .ok (d.synthesize directory container) := by
  have hsid : world.toSid none = .ok everyone := rfl
  have hentry : Entry.ofCommon
      (if container then Flags.ofList [.objectInherit, .containerInherit] else .none)
      ⟨.allow, false, 0xFFFFFFFF, everyone, []⟩ = .ok (fullAccess container) :=
    ofCommon_fullAccess container
  have hlist : AccessList.ofEntries
      (if directory then AccessList.directoryRevision else AccessList.plainRevision)
      [fullAccess container] = .ok (fullAccessList directory container) :=
    ofEntries_fullAccess directory container
  unfold attemptSynthesis synthesize
  cases d.dacl with
  | absent =>
      dsimp only
      rw [hsid, Outcome.ok_bind, hentry, Outcome.ok_bind, hlist, Outcome.ok_bind]
      rfl
  | present list => rfl
  | synthetic list => rfl

theorem synthesize_fst {d : Descriptor} (directory container : Bool) :
    (d.synthesize directory container).1 = true ↔ d.dacl = .absent := by
  unfold synthesize
  split
  · rename_i habsent
    exact ⟨fun _ => habsent, fun _ => rfl⟩
  · rename_i hne
    exact ⟨fun h => (by cases h), fun h => absurd h hne⟩

/-! ### What is shown of the list -/

/-- The slot of the discretionary list in a binary form. -/
def daclSlot? (bytes : List UInt8) : Option Nat := (Header.decode? bytes).map Header.dacl

/-- **A list stands in for the missing one**: it can be looked at, and nothing of it is stored. -/
structure StandsIn (d : Descriptor) (list : AccessList) : Prop where
  dacl : d.dacl = .synthetic list
  unmarked : d.control.has .daclPresent = false
  slot : daclSlot? d.encode = some 0
  /-- The binary form is that of a descriptor without a list. -/
  encode : d.encode = { d with dacl := .absent }.encode
  size : d.size = { d with dacl := .absent }.size
  decode : ∀ rest, decode (d.encode ++ rest) = .ok { d with dacl := .absent }

/-- **A descriptor holds a list of its own**: it is marked and stored at the end, another one is not
made up, and taking it away leaves room for that again. -/
structure Holds (d : Descriptor) (list : AccessList) : Prop where
  dacl : d.dacl = .present list
  marked : d.control.has .daclPresent = true
  encode : ∃ front, d.encode = front ++ list.encode ∧ daclSlot? d.encode = some front.length ∧
    0 < front.length
  decode : ∀ rest, decode (d.encode ++ rest) = .ok d
  occupied : ∀ directory container, d.synthesize directory container = (false, d)
  takenAway : d.withDacl none
    = { d with control := d.control.put .daclPresent false, dacl := .absent }

theorem daclSlot?_encode {d : Descriptor} (h : d.WellFormed) :
    daclSlot? d.encode = some (slotAt d.daclStart d.dacl.stored?) := by
  have hheader := Header.decode?_encode_append h []
  rw [List.append_nil] at hheader
  rw [daclSlot?, hheader]
  rfl

/-- **What is shown of a list that was made up.** -/
theorem WellFormed.standsIn {d : Descriptor} (h : d.WellFormed) {list : AccessList}
    (hdacl : d.dacl = .synthetic list) : d.StandsIn list := by
  obtain ⟨-, -, -, hflag⟩ := settle_eq_iff.1 h.settled
  have hsynthetic : d.dacl.isSynthetic = true := by rw [hdacl]; rfl
  have hstored : d.dacl.stored? = Dacl.absent.stored? := by rw [hdacl]; rfl
  refine ⟨hdacl, ?_, ?_, ?_, ?_, ?_⟩
  · rw [← hflag, hdacl]
    rfl
  · rw [daclSlot?_encode h, hstored]
    rfl
  · -- The writer looks at the list only through what is stored of it.
    simp only [Descriptor.encode, components, hstored]
  · simp only [Descriptor.size, hstored]
  · intro rest
    rw [decode_encode_append h, stored_of_isSynthetic hsynthetic]

/-- **What is shown of a list that is stored.** -/
theorem WellFormed.holds {d : Descriptor} (h : d.WellFormed) {list : AccessList}
    (hdacl : d.dacl = .present list) : d.Holds list := by
  have hreal : d.dacl.isSynthetic = false := by rw [hdacl]; rfl
  have hstored : d.dacl.stored? = some list := by rw [hdacl]; rfl
  have hne : d.dacl ≠ .absent := by rw [hdacl]; exact Dacl.noConfusion
  refine ⟨hdacl, has_daclPresent h.settled (by rw [hstored]; rfl), ?_, ?_, ?_, ?_⟩
  · refine ⟨d.encodeHeader ++ (d.owner.map Sid.encode).getD []
      ++ (d.group.map Sid.encode).getD [] ++ (d.sacl.map AccessList.encode).getD [], ?_, ?_, ?_⟩
    · rw [encode_eq, hstored]
      simp only [Option.map_some, Option.getD_some, List.append_assoc]
    · rw [daclSlot?_encode h, hstored, slotAt, daclStart, saclStart, groupStart]
      simp only [List.length_append, length_encodeHeader, length_component Sid.length_encode,
        length_component AccessList.length_encode, Option.isSome_some, if_true]
    · simp only [List.length_append, length_encodeHeader, headerSize]
      omega
  · intro rest
    rw [decode_encode_append h, stored_of_not_isSynthetic hreal]
  · exact synthesize_of_ne_absent hne
  · exact withDacl_of_settled h.settled none

/-! ### The state of the list along a run -/

namespace Change

/-- Whether a change leaves a synthetic list alone: it does not replace it and does not edit it. -/
def sparesDacl : Change → Bool
  | .dacl _ | .editDacl _ => false
  | _ => true

/-- Whether a change does not take the discretionary list away. -/
def keepsDacl : Change → Bool
  | .dacl none => false
  | _ => true

/-- What becomes of a stored list in a change that does not take it away. -/
def follow (list : AccessList) : Change → AccessList
  | .dacl (some other) => other
  | .editDacl edit => edit list
  | _ => list

end Change

theorem dacl_apply_of_sparesDacl {d : Descriptor} {list : AccessList}
    (hdacl : d.dacl = .synthetic list) {change : Change} (hspare : change.sparesDacl = true) :
    (change.apply d).dacl = .synthetic list := by
  cases change with
  | dacl other => cases hspare
  | editDacl edit => cases hspare
  | synthesize directory container =>
      have hne : d.dacl ≠ .absent := by rw [hdacl]; exact Dacl.noConfusion
      rw [Change.apply, synthesize_of_ne_absent hne]
      exact hdacl
  | _ => exact hdacl

/-- **A synthetic list is kept until it is edited or replaced.** -/
theorem dacl_run_of_sparesDacl {d : Descriptor} {list : AccessList}
    (hdacl : d.dacl = .synthetic list) {changes : List Change}
    (hspare : ∀ change ∈ changes, change.sparesDacl = true) :
    (d.run changes).dacl = .synthetic list := by
  induction changes generalizing d with
  | nil => exact hdacl
  | cons change changes ih =>
      obtain ⟨hchange, hrest⟩ := List.forall_mem_cons.1 hspare
      exact ih (dacl_apply_of_sparesDacl hdacl hchange) hrest

theorem dacl_apply_of_keepsDacl {d : Descriptor} {list : AccessList}
    (hdacl : d.dacl = .present list) {change : Change} (hkeep : change.keepsDacl = true) :
    (change.apply d).dacl = .present (change.follow list) := by
  cases change with
  | dacl other =>
      cases other with
      | none => cases hkeep
      | some other => rfl
  | editDacl edit => rw [Change.apply, editDacl_of_present hdacl, Change.follow]
  | synthesize directory container =>
      have hne : d.dacl ≠ .absent := by rw [hdacl]; exact Dacl.noConfusion
      rw [Change.apply, synthesize_of_ne_absent hne]
      exact hdacl
  | _ => exact hdacl

/-- **A stored list is followed through the changes until it is taken away.** -/
theorem dacl_run_of_keepsDacl {d : Descriptor} {list : AccessList}
    (hdacl : d.dacl = .present list) {changes : List Change}
    (hkeep : ∀ change ∈ changes, change.keepsDacl = true) :
    (d.run changes).dacl = .present (changes.foldl Change.follow list) := by
  induction changes generalizing d list with
  | nil => exact hdacl
  | cons change changes ih =>
      obtain ⟨hchange, hrest⟩ := List.forall_mem_cons.1 hkeep
      exact ih (dacl_apply_of_keepsDacl hdacl hchange) hrest

/-- A list that is held is held along a run that does not take it away. -/
theorem Reachable.holds_run {d : Descriptor} (h : d.Reachable) {list : AccessList}
    (hdacl : d.dacl = .present list) {changes : List Change}
    (hchanges : ∀ change ∈ changes, change.IsProper ∧ change.keepsDacl = true) :
    (d.run changes).Holds (changes.foldl Change.follow list) := by
  have hreachable := h.run fun change hmem => (hchanges change hmem).1
  exact hreachable.wellFormed.holds
    (dacl_run_of_keepsDacl hdacl fun change hmem => (hchanges change hmem).2)

/-! ### The first edit -/

/-- **A synthetic list is taken up by the first edit.** -/
structure TakenUp (d : Descriptor) (list : AccessList) : Prop where
  /-- Asking for the list in order to edit it is enough. -/
  adopted : ∀ later : List Change,
    (∀ change ∈ later, change.IsProper ∧ change.keepsDacl = true) →
      (d.adoptDacl.run later).Holds (later.foldl Change.follow list)
  /-- An edit that is refused takes the list up as it is. -/
  refused : ∀ (edit : AccessList.Edit) (error : Error), edit.attempt list = .error error →
    d.editDacl edit.apply = d.adoptDacl
  /-- After any other edit it is the edited list that is held. -/
  edited : ∀ edit : AccessList → AccessList, (Change.editDacl edit).IsProper →
    ∀ later : List Change, (∀ change ∈ later, change.IsProper ∧ change.keepsDacl = true) →
      ((d.editDacl edit).run later).Holds (later.foldl Change.follow (edit list))

/-- An edit that leaves the synthetic list as it is only takes it up. -/
theorem editDacl_eq_adoptDacl {d : Descriptor} (h : d.settle = d) {list : AccessList}
    (hdacl : d.dacl = .synthetic list) {edit : AccessList → AccessList} (hedit : edit list = list) :
    d.editDacl edit = d.adoptDacl := by
  rw [editDacl_of_synthetic h hdacl, adoptDacl_of_synthetic h hdacl, hedit]

theorem Reachable.takenUp {d : Descriptor} (h : d.Reachable) {list : AccessList}
    (hdacl : d.dacl = .synthetic list) : d.TakenUp list := by
  have hsettled := h.wellFormed.settled
  have hedited : ∀ edit : AccessList → AccessList, (Change.editDacl edit).IsProper →
      ∀ later : List Change, (∀ change ∈ later, change.IsProper ∧ change.keepsDacl = true) →
        ((d.editDacl edit).run later).Holds (later.foldl Change.follow (edit list)) := by
    intro edit hedit later hlater
    have hreachable : (d.editDacl edit).Reachable := h.changed hedit
    refine hreachable.holds_run ?_ hlater
    rw [editDacl_of_synthetic hsettled hdacl]
  refine ⟨?_, ?_, hedited⟩
  · intro later hlater
    have hidentity : (Change.editDacl id).IsProper := fun _ hlist => hlist
    rw [← editDacl_eq_adoptDacl hsettled hdacl (show id list = list from rfl)]
    exact hedited id hidentity later hlater
  · intro edit error hrefused
    exact editDacl_eq_adoptDacl hsettled hdacl (AccessList.Edit.apply_of_error hrefused)

/-- **The life of a list that was made up.**  It is made up exactly where there is none, and is not
stored through any run of changes that spare it; the first edit takes it up for good.  Where no list
was made up, asking for one in order to edit it changes nothing. -/
theorem Reachable.synthetic_lifeCycle {d : Descriptor} (h : d.Reachable)
    (directory container : Bool) :
    (d.attemptSynthesis directory container = .ok (d.synthesize directory container) ∧
      ((d.synthesize directory container).1 = true ↔ d.dacl = .absent) ∧
      (d.dacl ≠ .absent → d.synthesize directory container = (false, d))) ∧
    (d.dacl = .absent →
      (d.synthesize directory container).2.encode
        = { d with control := d.control.put .daclPresent false }.encode ∧
      (d.synthesize directory container).2.size
        = { d with control := d.control.put .daclPresent false }.size ∧
      ∀ quiet : List Change,
        (∀ change ∈ quiet, change.IsProper ∧ change.sparesDacl = true) →
          ((d.synthesize directory container).2.run quiet).StandsIn
            (fullAccessList directory container) ∧
          ((d.synthesize directory container).2.run quiet).TakenUp
            (fullAccessList directory container)) ∧
    (d.dacl.isSynthetic = false → d.adoptDacl = d) ∧
    (d.dacl = .absent → ∀ edit : AccessList → AccessList, d.editDacl edit = d) := by
  have hsettled := h.wellFormed.settled
  refine ⟨⟨attemptSynthesis_eq_ok d directory container, synthesize_fst directory container,
    fun hne => synthesize_of_ne_absent hne directory container⟩, ?_,
    adoptDacl_of_not_isSynthetic, editDacl_of_absent⟩
  intro habsent
  have hmade : (d.synthesize directory container).2
      = { d with
          control := d.control.put .daclPresent false
          dacl := .synthetic (fullAccessList directory container) } := by
    rw [synthesize_of_absent hsettled habsent]
  have hproper : (Change.synthesize directory container).IsProper := trivial
  have hreachable : (d.synthesize directory container).2.Reachable := h.changed hproper
  have hdacl : (d.synthesize directory container).2.dacl
      = .synthetic (fullAccessList directory container) := by
    rw [hmade]
  have hstands := hreachable.wellFormed.standsIn hdacl
  have hcleared : { (d.synthesize directory container).2 with dacl := .absent }
      = { d with control := d.control.put .daclPresent false } := by
    rw [hmade, ← habsent]
  refine ⟨hstands.encode.trans (congrArg encode hcleared),
    hstands.size.trans (congrArg size hcleared), ?_⟩
  intro quiet hquiet
  have hrun := hreachable.run fun change hmem => (hquiet change hmem).1
  have hkept := dacl_run_of_sparesDacl hdacl fun change hmem => (hquiet change hmem).2
  exact ⟨hrun.wellFormed.standsIn hkept, hrun.takenUp hkept⟩

/-- A descriptor with an owner whose list is marked as present and missing: a null list. -/
def nullList : Descriptor := make (.ofList [.daclPresent]) (some everyone) none none none

/-- Changes that spare a synthetic list, although they try to mark it and to make up another one. -/
def disturbances : List Change :=
  [.control (.ofList [.daclPresent, .daclProtected]), .synthesize true true, .owner none]

/-- Changes of a descriptor with a list of its own, which lose the only entry of the list. -/
def losses : List Change :=
  [.control .none, .editDacl (AccessList.Edit.remove 0).apply, .synthesize false true]

/-- A null list is stood in for.  The edit that takes the list up is refused, as it has only one
entry; after a later one it is an empty list that is held. -/
theorem synthetic_lifeCycle_refused :
    nullList.Reachable ∧ (nullList.synthesize true false).1 = true ∧
    ((nullList.synthesize true false).2.run disturbances).StandsIn (fullAccessList true false) ∧
    (AccessList.Edit.remove 1).attempt (fullAccessList true false)
      = .error (.outOfRange .entryIndex 1 0) ∧
    ((((nullList.synthesize true false).2.run disturbances).editDacl
      (AccessList.Edit.remove 1).apply).run losses).Holds ⟨4, []⟩ := by
  have hnull : nullList.Reachable :=
    .made _ _ _ (fun _ hlist => by cases hlist) (fun _ hlist => by cases hlist)
  have hspare : ∀ change ∈ disturbances, change.IsProper ∧ change.sparesDacl = true := by
    simp [disturbances, Change.IsProper, Change.sparesDacl]
  have hkeep : ∀ change ∈ losses, change.IsProper ∧ change.keepsDacl = true := by
    have hedit : (AccessList.Edit.remove 0).IsProper := trivial
    have hremove : (Change.editDacl (AccessList.Edit.remove 0).apply).IsProper :=
      fun _ hlist => AccessList.Edit.reachable_apply hedit hlist
    intro change hmem
    simp only [losses, List.mem_cons, List.not_mem_nil, or_false] at hmem
    rcases hmem with rfl | rfl | rfl
    · exact ⟨trivial, rfl⟩
    · exact ⟨hremove, rfl⟩
    · exact ⟨trivial, rfl⟩
  have hrefused : (AccessList.Edit.remove 1).attempt (fullAccessList true false)
      = .error (.outOfRange .entryIndex 1 0) := rfl
  obtain ⟨⟨-, hmade, -⟩, hlife, -, -⟩ := hnull.synthetic_lifeCycle true false
  obtain ⟨-, -, hquiet⟩ := hlife rfl
  obtain ⟨hstands, htaken⟩ := hquiet disturbances hspare
  have hheld := htaken.adopted losses hkeep
  rw [← htaken.refused _ _ hrefused] at hheld
  exact ⟨hnull, hmade.2 rfl, hstands, hrefused, hheld⟩

end Descriptor

end SecurityDescriptor
