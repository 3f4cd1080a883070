/-
**A descriptor is written with slots that count from its own start.**

A descriptor leaves its slots empty when it writes its header, and each component that follows fills
in its own.  The slots then lie behind the bytes that were in the vector before, so what is filled in
is a distance from the start of the descriptor, and the place where it goes is one from the start of
the vector.  Between two components the vector holds a draft: the slots of the components that are
written are filled in, the others are empty, and the next component begins where the draft ends.

Main definitions:

* `Descriptor.draft` — a descriptor that is being written;
* `Descriptor.frame` — the header that is written for a descriptor.

Main results:

* `Descriptor.run_record`, `Descriptor.run_writeComponent` — **one component is appended, one slot is
  filled in, and nothing else is touched**;
* `Descriptor.run_write` — **a descriptor is put behind any vector as its binary form**;
* `Descriptor.Reachable.arrangement` — behind any bytes its slots lead to its components;
* `encoders_agree` — **the encoders agree for every value that can be had**.
-/

import SecurityDescriptor.Proofs.Descriptor.Arrangement
import SecurityDescriptor.Proofs.Writing

set_option relaxedAutoImplicit false
set_option autoImplicit false

namespace SecurityDescriptor

open Checked Buffer.InPlace

namespace Descriptor

/-! ### Sizes -/

theorem measureComponent_eq {α : Type} {measure : α → Checked Nat} {size : α → Nat}
    {component : Option α} (h : ∀ a ∈ component, measure a = pure (size a)) :
    measureComponent measure component = pure (componentSize size component) := by
  cases component with
  | none => rfl
  | some a => exact h a rfl

variable {d : Descriptor}

/-- The components start one behind the other. -/
theorem starts_le (d : Descriptor) :
    headerSize ≤ d.groupStart ∧ d.groupStart ≤ d.saclStart ∧ d.saclStart ≤ d.daclStart :=
  ⟨Nat.le_add_right .., Nat.le_add_right .., Nat.le_add_right ..⟩

/-- A descriptor is far smaller than a vector may be. -/
theorem WellFormed.size_lt (h : d.WellFormed) : d.size < 4295032831 := by
  have hstart := daclStart_lt h
  have hdacl : componentSize AccessList.size d.dacl.stored? ≤ AccessList.maxSize :=
    componentSize_le fun list hlist => (h.dacl list (mem_list?_of_mem_stored? hlist)).size_le
  rw [AccessList.maxSize] at hdacl
  rw [daclStart, saclStart, groupStart] at hstart
  rw [size]
  omega

theorem measure_eq (h : d.WellFormed) : d.measure = pure d.size := by
  have hlt := h.size_lt
  have hsids : ∀ component : Option Sid, measureComponent Sid.measure component
      = pure (componentSize Sid.size component) :=
    fun component => measureComponent_eq fun sid _ => sid.measure_eq
  have hsacl : measureComponent AccessList.measure d.sacl
      = pure (componentSize AccessList.size d.sacl) :=
    measureComponent_eq fun list hlist => AccessList.measure_eq (h.sacl list hlist)
  have hdacl : measureComponent AccessList.measure d.dacl.stored?
      = pure (componentSize AccessList.size d.dacl.stored?) :=
    measureComponent_eq fun list hlist =>
      AccessList.measure_eq (h.dacl list (mem_list?_of_mem_stored? hlist))
  have hword : 4295032831 < wordLimit := by decide
  rw [size] at hlt ⊢
  rw [measure, hsids, hsids, hsacl, hdacl, pure_bind, add_eq (by omega), pure_bind, pure_bind,
    add_eq (by omega), pure_bind, pure_bind, add_eq (by omega), pure_bind, pure_bind,
    add_eq (by omega)]

/-! ### Drafts -/

/-- A descriptor that is being written: what stands before the slots, the slots so far, and the
components so far. -/
def draft (head : List UInt8) (slots : List Nat) (written : List UInt8) : List UInt8 :=
  head ++ (slots.flatMap (Octets.little 4) ++ written)

theorem length_draft (head : List UInt8) (slots : List Nat) (written : List UInt8) :
    (draft head slots written).length = head.length + 4 * slots.length + written.length := by
  simp only [draft, List.length_append, length_flatMap_little]
  omega

section Steps

variable {before head written : List UInt8} {place start : Nat} (filled empty : List Nat)

/-- **A slot is filled in where it stands**: behind the bytes that were there before the descriptor,
the head, and the slots before it. -/
theorem run_record (hplace : head.length + 4 * filled.length = place)
    (hstart : (draft head (filled ++ 0 :: empty) written).length = start)
    (hlength : before.length + start < wordLimit) :
    (record before.length place).run (before ++ draft head (filled ++ 0 :: empty) written)
      = .ok (.ok (), before ++ draft head (filled ++ start :: empty) written) := by
  -- The slot stands between what is in front of it and what follows it.
  have hsplit : ∀ slot, before ++ draft head (filled ++ slot :: empty) written
      = (before ++ (head ++ filled.flatMap (Octets.little 4))) ++ (Octets.little 4 slot ++
          (empty.flatMap (Octets.little 4) ++ written)) := by
    intro slot
    simp [draft]
  have hfront : (before ++ (head ++ filled.flatMap (Octets.little 4))).length
      = before.length + place := by
    simp only [List.length_append, length_flatMap_little, hplace]
  have htotal : (before ++ draft head (filled ++ 0 :: empty) written).length
      = before.length + start := by
    rw [List.length_append, hstart]
  have hfits : before.length + place + (Octets.little 4 start).length
      ≤ (before ++ draft head (filled ++ 0 :: empty) written).length := by
    rw [length_draft, List.length_append, List.length_cons] at hstart
    rw [htotal, Octets.length_little]
    omega
  have hstored := run_store hfits (htotal ▸ hlength)
  rw [hsplit 0, Octets.overwrite_append hfront (by simp), ← hsplit start, ← hsplit 0] at hstored
  rw [record, run_length_bind, htotal, sub_eq (Nat.le_add_right ..), Nat.add_sub_cancel_left,
    run_bind_of_ok (run_aside_pure ..), add_eq (by omega), run_bind_of_ok (run_aside_pure ..),
    hstored]

/-- **A component is written where the descriptor so far ends**, and its slot says so. -/
theorem run_writeComponent {α : Type} {write : α → Buffer.InPlace Unit} {encode : α → List UInt8}
    {component : Option α} (hwrite : ∀ a ∈ component, Appends (write a) (encode a))
    (hplace : head.length + 4 * filled.length = place)
    (hstart : (draft head (filled ++ 0 :: empty) written).length = start)
    (hlength : before.length + start < wordLimit) :
    (writeComponent write before.length place component).run
        (before ++ draft head (filled ++ 0 :: empty) written)
      = .ok (.ok (), before ++ draft head (filled ++ slotAt start component :: empty)
          (written ++ (component.map encode).getD [])) := by
  cases component with
  | none => simp [writeComponent, slotAt]
  | some a =>
      have hrecord := run_record filled empty hplace hstart hlength
      rw [writeComponent, run_bind_of_ok hrecord, hwrite a rfl]
      simp [slotAt, draft]

end Steps

/-- What stands before the slots. -/
def head (d : Descriptor) : List UInt8 :=
  revision :: d.resourceManager.getD 0 :: Octets.little 2 d.control.bits.toNat

theorem encode_eq_draft (d : Descriptor) :
    d.encode = draft d.head
      [slotAt headerSize d.owner, slotAt d.groupStart d.group, slotAt d.saclStart d.sacl,
        slotAt d.daclStart d.dacl.stored?]
      ((d.owner.map Sid.encode).getD [] ++ (d.group.map Sid.encode).getD [] ++
        (d.sacl.map AccessList.encode).getD [] ++
        (d.dacl.stored?.map AccessList.encode).getD []) := by
  rw [encode, slots_components]
  simp [draft, head, components]

/-- A draft ends where the component starts that comes next. -/
theorem length_draft_head {slots : List Nat} {written : List UInt8} {start : Nat}
    (hslots : slots.length = 4) (hstart : headerSize + written.length = start) :
    (draft d.head slots written).length = start := by
  rw [length_draft, hslots, ← hstart]
  rfl

/-- **A descriptor is put behind any vector**, with slots that count from its own start. -/
theorem run_write (h : d.WellFormed) {before : List UInt8} (hbefore : before.length < sliceLimit) :
    d.write.run before = .ok (.ok (), before ++ d.encode) := by
  have hlimit : sliceLimit + 4294967296 ≤ wordLimit := by decide
  -- No component starts where a machine word cannot reach.
  have hlast := daclStart_lt h
  obtain ⟨hgroupStart, hsaclStart, hdaclStart⟩ := d.starts_le
  let owner := (d.owner.map Sid.encode).getD []
  let group := (d.group.map Sid.encode).getD []
  let sacl := (d.sacl.map AccessList.encode).getD []
  let dacl := (d.dacl.stored?.map AccessList.encode).getD []
  have startGroup : headerSize + owner.length = d.groupStart := by
    simp [owner, groupStart, length_component Sid.length_encode]
  have startSacl : headerSize + (owner ++ group).length = d.saclStart := by
    simp [group, ← startGroup, saclStart, length_component Sid.length_encode, Nat.add_assoc]
  have startDacl : headerSize + (owner ++ group ++ sacl).length = d.daclStart := by
    rw [daclStart, ← startSacl, ← length_component AccessList.length_encode, List.length_append,
      Nat.add_assoc]
  have hempty : before ++ [revision] ++ [d.resourceManager.getD 0]
      ++ Octets.little 2 d.control.bits.toNat ++ List.replicate (headerSize - 4) 0
        = before ++ draft d.head [0, 0, 0, 0] [] := by
    simp [draft, head, headerSize, Octets.little, List.replicate]
  -- One component after another, each where the ones before it end.
  have howner : (writeComponent Sid.write before.length 4 d.owner).run
      (before ++ draft d.head [0, 0, 0, 0] [])
        = .ok (.ok (), before ++ draft d.head [slotAt headerSize d.owner, 0, 0, 0] owner) :=
    run_writeComponent [] [0, 0, 0] (fun sid _ => sid.appends) rfl (length_draft_head rfl rfl)
      (by omega)
  have hgroup : (writeComponent Sid.write before.length 8 d.group).run
      (before ++ draft d.head [slotAt headerSize d.owner, 0, 0, 0] owner)
        = .ok (.ok (), before ++ draft d.head
            [slotAt headerSize d.owner, slotAt d.groupStart d.group, 0, 0] (owner ++ group)) :=
    run_writeComponent [_] [0, 0] (fun sid _ => sid.appends) rfl (length_draft_head rfl startGroup)
      (by omega)
  have hsacl : (writeComponent AccessList.write before.length 12 d.sacl).run
      (before ++ draft d.head
        [slotAt headerSize d.owner, slotAt d.groupStart d.group, 0, 0] (owner ++ group))
        = .ok (.ok (), before ++ draft d.head
            [slotAt headerSize d.owner, slotAt d.groupStart d.group, slotAt d.saclStart d.sacl, 0]
            (owner ++ group ++ sacl)) :=
    run_writeComponent [_, _] [0] (fun list hlist => AccessList.appends (h.sacl list hlist)) rfl
      (length_draft_head rfl startSacl) (by omega)
  have hdacl : (writeComponent AccessList.write before.length 16 d.dacl.stored?).run
      (before ++ draft d.head
        [slotAt headerSize d.owner, slotAt d.groupStart d.group, slotAt d.saclStart d.sacl, 0]
        (owner ++ group ++ sacl))
        = .ok (.ok (), before ++ draft d.head
            [slotAt headerSize d.owner, slotAt d.groupStart d.group, slotAt d.saclStart d.sacl,
              slotAt d.daclStart d.dacl.stored?] (owner ++ group ++ sacl ++ dacl)) :=
    run_writeComponent [_, _, _] []
      (fun list hlist => AccessList.appends (h.dacl list (mem_list?_of_mem_stored? hlist))) rfl
      (length_draft_head rfl startDacl) (by omega)
  rw [write, run_length_bind, run_bind_of_ok (run_writeByte ..), run_bind_of_ok (run_writeByte ..),
    run_bind_of_ok (run_writeBytes ..), run_bind_of_ok (run_writeBytes ..), hempty,
    run_bind_of_ok howner, run_bind_of_ok hgroup, run_bind_of_ok hsacl, hdacl, encode_eq_draft]

/-! ### The slots of what was written -/

/-- The slot that is written for a component leads to it, from wherever the descriptor starts. -/
theorem leads_slotAt {α : Type} {encode : α → List UInt8} {component : Option α} {bytes : List UInt8}
    {base : Nat} (front rest : List UInt8) {start : Nat} {inUse : Bool}
    (hbytes : bytes.drop base = front ++ ((component.map encode).getD [] ++ rest))
    (hstart : front.length = start) (hpos : 0 < start) (hlt : start < 4294967296)
    (huse : component.isSome = true → inUse = true) :
    Leads encode bytes base inUse (.ofNat (slotAt start component)) component := by
  subst hstart
  cases component with
  | none => exact .nowhere (.inr rfl)
  | some a =>
      have hslot : (UInt32.ofNat front.length).toNat = front.length :=
        UInt32.toNat_ofNat_of_lt' hlt
      refine .component a rest (huse rfl) ?_ ?_
      · intro hzero
        have hnat := congrArg UInt32.toNat hzero
        rw [slotAt, Option.isSome_some, if_pos rfl, hslot] at hnat
        exact absurd hnat (Nat.ne_of_gt hpos)
      · rw [slotAt, Option.isSome_some, if_pos rfl, hslot, ← List.drop_drop, hbytes,
          List.drop_left]
        rfl

/-- The header that is written for a descriptor. -/
def frame (d : Descriptor) : Frame :=
  { resourceManager := d.resourceManager.getD 0
    control := d.control
    owner := .ofNat (slotAt headerSize d.owner)
    group := .ofNat (slotAt d.groupStart d.group)
    sacl := .ofNat (slotAt d.saclStart d.sacl)
    dacl := .ofNat (slotAt d.daclStart d.dacl.stored?) }

theorem WellFormed.encode_frame (h : d.WellFormed) : d.frame.encode = d.encodeHeader := by
  have hslot : ∀ {α : Type} {start : Nat} (component : Option α), start ≤ d.daclStart →
      (UInt32.ofNat (slotAt start component)).toNat = slotAt start component :=
    fun component hstart => UInt32.toNat_ofNat_of_lt'
      (slotAt_lt (by decide) (Nat.lt_of_le_of_lt hstart (daclStart_lt h)) component)
  obtain ⟨hgroupStart, hsaclStart, hdaclStart⟩ := d.starts_le
  have hgroup : d.groupStart ≤ d.daclStart := Nat.le_trans hsaclStart hdaclStart
  have howner : headerSize ≤ d.daclStart := Nat.le_trans hgroupStart hgroup
  simp [Frame.encode, frame, encodeHeader, slots_components, hslot, howner, hgroup, hdaclStart]

/-- **Behind any bytes a descriptor is arranged from where it starts**: its slots lead to its
components. -/
theorem Reachable.arrangement (h : d.Reachable) (before : List UInt8) :
    Arrangement (before ++ d.encode) before.length d.frame d.owner d.group d.sacl
      d.dacl.stored? := by
  obtain ⟨⟨hsaclReachable, hdaclReachable⟩, hsettled⟩ := h.invariant
  obtain ⟨hrelative, -, hsacl, -⟩ := settle_eq_iff.mp hsettled
  have hlast := daclStart_lt h.wellFormed
  obtain ⟨hgroupStart, hsaclStart, hdaclStart⟩ := d.starts_le
  have hpos : 0 < headerSize := by decide
  have hbytes : (before ++ d.encode).drop before.length = d.encode := List.drop_left
  have hheader := d.length_encodeHeader
  have howner := length_component Sid.length_encode d.owner
  have hgroup := length_component Sid.length_encode d.group
  have hsaclLength := length_component AccessList.length_encode d.sacl
  let owner := (d.owner.map Sid.encode).getD []
  let group := (d.group.map Sid.encode).getD []
  let sacl := (d.sacl.map AccessList.encode).getD []
  let dacl := (d.dacl.stored?.map AccessList.encode).getD []
  refine ⟨⟨owner ++ (group ++ (sacl ++ dacl)), ?_⟩, hrelative, ?_, ?_, ?_, ?_, ?_⟩
  · rw [hbytes, h.wellFormed.encode_frame, encode_eq]
  · rintro list (hlist | hlist)
    · exact hsaclReachable list hlist
    · exact hdaclReachable list (mem_list?_of_mem_stored? hlist)
  · refine leads_slotAt d.encodeHeader (group ++ (sacl ++ dacl)) ?_ hheader hpos (by omega)
      (fun _ => rfl)
    rw [hbytes, encode_eq]
  · refine leads_slotAt (d.encodeHeader ++ owner) (sacl ++ dacl) ?_ ?_ (by omega) (by omega)
      (fun _ => rfl)
    · rw [hbytes, encode_eq, List.append_assoc]
    · rw [List.length_append, hheader, howner]
      rfl
  · refine leads_slotAt (d.encodeHeader ++ owner ++ group) dacl ?_ ?_ (by omega) (by omega) hsacl
    · rw [hbytes, encode_eq, List.append_assoc, List.append_assoc]
    · rw [List.length_append, List.length_append, hheader, howner, hgroup]
      rfl
  · refine leads_slotAt (d.encodeHeader ++ owner ++ group ++ sacl) [] ?_ ?_ (by omega) hlast
      (has_daclPresent hsettled)
    · rw [hbytes, encode_eq, List.append_nil, List.append_assoc, List.append_assoc,
        List.append_assoc]
    · rw [List.length_append, List.length_append, List.length_append, hheader, howner, hgroup,
        hsaclLength]
      rfl

theorem writes {d : Descriptor} (h : d.WellFormed) : d.form.Writes d.encode := by
  refine Buffer.Form.writes ?_ ?_ fun before => run_write h
  · simp [encode]
  · rw [length_encode]
    exact measure_eq h

end Descriptor

/-! ### The encoders agree -/

/-- **The encoders agree.**  Every identifier, and every entry, list and descriptor that can be had,
is measured, collected, appended and placed as the same bytes; and behind any bytes the slots of a
descriptor lead from its own start to its components. -/
theorem encoders_agree :
    (∀ s : Sid, s.form.Writes s.encode)
    ∧ (∀ entry : Entry, entry.Reachable → entry.form.Writes entry.encode)
    ∧ (∀ list : AccessList, list.Reachable → list.form.Writes list.encode)
    ∧ (∀ d : Descriptor, d.Reachable → d.form.Writes d.encode ∧
        ∀ before : List UInt8, Descriptor.Arrangement (before ++ d.encode) before.length d.frame
          d.owner d.group d.sacl d.dacl.stored?) :=
  ⟨Sid.writes, fun _ h => Entry.writes h.wellFormed, fun _ h => AccessList.writes h.wellFormed,
    fun _ h => ⟨Descriptor.writes h.wellFormed, h.arrangement⟩⟩

/-- A descriptor of the local system behind a byte, and in a buffer that is one byte too short. -/
theorem encoders_agree_localSystem :
    let d := Descriptor.make .none (some ⟨5, [18], by decide, by decide⟩) none none none
    let bytes : List UInt8 :=
      [1, 0, 0, 128, 20, 0, 0, 0, 0, 0, 0, 0, 0, 0, 0, 0, 0, 0, 0, 0,
        1, 1, 0, 0, 0, 0, 0, 5, 18, 0, 0, 0]
    d.Reachable ∧ d.form.write.run [7] = .ok (.ok (), 7 :: bytes) ∧
      (d.form.writeTo 1).run (List.replicate 32 0)
        = .ok (.error (.bufferTooSmall 32 31), List.replicate 32 0) := by
  intro d bytes
  have hreachable : d.Reachable :=
    .made .none _ none (fun _ h => nomatch h) (fun _ h => nomatch h)
  have hbytes : d.encode = bytes := by decide +kernel
  obtain ⟨-, -, -, hwrites⟩ := encoders_agree
  obtain ⟨hforms, -⟩ := hwrites d hreachable
  rw [hbytes] at hforms
  exact ⟨hreachable, hforms.appended [7] (by decide),
    hforms.refused (List.replicate 32 0) 1 (by decide) (by decide)⟩

end SecurityDescriptor
