/-
**A well-formed descriptor is read back from its binary form.**

The components are written one after another behind a header, and a slot in the header says where
each of them starts.  A well-formed descriptor has fewer than 2³² bytes, so every slot holds its
offset in full, and a component starts behind the header, so no slot of a component that is there is
zero.  The reader follows each slot to the bytes of the component, looks no further than they reach,
and settles control flags that are settled already.  The one thing that is not written is a list
that was made up.

Main definitions:

* `Descriptor.stored` — what the binary form keeps of a descriptor;
* `Descriptor.slotAt` — the slot of a component that starts at an offset.

Main results:

* `Descriptor.decodeSlot_of_eq_append` — a slot leads to the component it is for;
* `Descriptor.decode_encode_append` — **what is stored of a well-formed descriptor is read back**.
-/

import SecurityDescriptor.Proofs.Canonical
import SecurityDescriptor.Proofs.Descriptor.Reachable

set_option relaxedAutoImplicit false
set_option autoImplicit false

namespace SecurityDescriptor

namespace Descriptor

/-! ### What is stored -/

/-- What the binary form keeps of a descriptor: all but a list that was made up. -/
def stored (d : Descriptor) : Descriptor := { d with dacl := .ofOption d.dacl.stored? }

theorem stored_of_isSynthetic {d : Descriptor} (h : d.dacl.isSynthetic = true) :
    d.stored = { d with dacl := .absent } := by
  rcases d with ⟨control, owner, group, sacl, dacl, manager⟩
  cases dacl with
  | absent => cases h
  | present list => cases h
  | synthetic list => rfl

theorem stored_of_not_isSynthetic {d : Descriptor} (h : d.dacl.isSynthetic = false) :
    d.stored = d := by
  rcases d with ⟨control, owner, group, sacl, dacl, manager⟩
  cases dacl with
  | absent => rfl
  | present list => rfl
  | synthetic list => cases h

/-- A synthetic list is not marked as present, so leaving it out upsets no flag. -/
theorem settled_stored {d : Descriptor} (h : d.settle = d) : d.stored.settle = d.stored := by
  obtain ⟨hrelative, hmanager, hsacl, hdacl⟩ := settle_eq_iff.1 h
  refine settle_eq_iff.2 ⟨hrelative, hmanager, hsacl, ?_⟩
  rcases d with ⟨control, owner, group, sacl, dacl, manager⟩
  cases dacl with
  | absent => rfl
  | present list => exact hdacl
  | synthetic list => rfl

/-! ### Slots -/

/-- The slot of a component that starts at an offset; zero if there is none. -/
def slotAt {α : Type} (start : Nat) (component : Option α) : Nat :=
  if component.isSome then start else 0

theorem slots_cons (start : Nat) (component : Option (List UInt8))
    (components : List (Option (List UInt8))) :
    slots start (component :: components)
      = slotAt start component :: slots (start + (component.getD []).length) components := by
  cases component <;> rfl

theorem slotAt_lt {α : Type} {start bound : Nat} (hpos : 0 < bound) (h : start < bound)
    (component : Option α) : slotAt start component < bound := by
  unfold slotAt
  split
  · exact h
  · exact hpos

theorem slotAt_map {α β : Type} (start : Nat) (f : α → β) (component : Option α) :
    slotAt start (component.map f) = slotAt start component := by
  cases component <;> rfl

/-- **A slot leads to the component it is for**: the bytes of the component stand behind `front`,
and the reader of components takes them back with anything behind them. -/
theorem decodeSlot_of_eq_append {α : Type} {decode : Decoder α} (encode : α → List UInt8)
    {component : Option α} {bytes : List UInt8} (front rest : List UInt8) {start : Nat}
    {inUse : Bool} (hread : ∀ a ∈ component, ∀ rest, decode (encode a ++ rest) = .ok a)
    (huse : component.isSome = true → inUse = true) (hstart : front.length = start)
    (hpos : 0 < start) (hbytes : bytes = front ++ ((component.map encode).getD [] ++ rest)) :
    decodeSlot decode bytes inUse (slotAt start component) = .ok component := by
  subst hbytes
  subst hstart
  cases component with
  | none =>
      rw [decodeSlot, slotAt, Option.isSome_none, if_neg Bool.false_ne_true,
        if_neg (fun h => h.2 rfl)]
  | some a =>
      have hslot : slotAt front.length (some a) = front.length := rfl
      have hfound : decode.startingAt (front ++ (encode a ++ rest)) front.length = .ok a := by
        rw [Decoder.startingAt_eq_ok_iff, List.drop_left]
        exact hread a rfl rest
      rw [decodeSlot, hslot, if_pos ⟨huse rfl, Nat.ne_of_gt hpos⟩, Option.map_some,
        Option.getD_some, hfound, Outcome.ok_bind]
      rfl

/-! ### The header -/

/-- The bytes before the components. -/
def encodeHeader (d : Descriptor) : List UInt8 :=
  revision :: d.resourceManager.getD 0 :: (Octets.little 2 d.control.bits.toNat ++
    (slots headerSize d.components).flatMap (Octets.little 4))

theorem length_encodeHeader (d : Descriptor) : d.encodeHeader.length = headerSize := by
  simp only [encodeHeader, List.length_cons, List.length_append, Octets.length_little,
    length_flatMap_little, length_slots, components, List.length_nil, headerSize]

theorem encode_eq (d : Descriptor) :
    d.encode = d.encodeHeader ++ ((d.owner.map Sid.encode).getD [] ++
      ((d.group.map Sid.encode).getD [] ++ ((d.sacl.map AccessList.encode).getD [] ++
        (d.dacl.stored?.map AccessList.encode).getD []))) := by
  simp only [encode, encodeHeader, components, List.flatMap_cons, List.flatMap_nil,
    List.append_nil, List.cons_append, List.append_assoc]

/-- The offset behind the owner. -/
def groupStart (d : Descriptor) : Nat := headerSize + componentSize Sid.size d.owner

/-- The offset behind the group. -/
def saclStart (d : Descriptor) : Nat := d.groupStart + componentSize Sid.size d.group

/-- The offset behind the system list. -/
def daclStart (d : Descriptor) : Nat := d.saclStart + componentSize AccessList.size d.sacl

theorem slots_components (d : Descriptor) :
    slots headerSize d.components
      = [slotAt headerSize d.owner, slotAt d.groupStart d.group, slotAt d.saclStart d.sacl,
          slotAt d.daclStart d.dacl.stored?] := by
  simp only [components, slots_cons, slots, slotAt_map, length_component Sid.length_encode,
    length_component AccessList.length_encode, groupStart, saclStart, daclStart]

theorem componentSize_le {α : Type} {size : α → Nat} {bound : Nat} {component : Option α}
    (h : ∀ a ∈ component, size a ≤ bound) : componentSize size component ≤ bound := by
  cases component with
  | none => exact Nat.zero_le bound
  | some a => exact h a rfl

/-- Every component of a well-formed descriptor starts at an offset that fits in a slot. -/
theorem daclStart_lt {d : Descriptor} (h : d.WellFormed) : d.daclStart < 4294967296 := by
  have howner : componentSize Sid.size d.owner ≤ Sid.maxSize :=
    componentSize_le fun sid _ => sid.size_le
  have hgroup : componentSize Sid.size d.group ≤ Sid.maxSize :=
    componentSize_le fun sid _ => sid.size_le
  have hsacl : componentSize AccessList.size d.sacl ≤ AccessList.maxSize :=
    componentSize_le fun list hlist => (h.sacl list hlist).size_le
  simp only [Sid.maxSize, Sid.minSize, Sid.maxCount, AccessList.maxSize] at howner hgroup hsacl
  simp only [daclStart, saclStart, groupStart, headerSize]
  omega

theorem Header.decode?_encode_append {d : Descriptor} (h : d.WellFormed) (rest : List UInt8) :
    Header.decode? (d.encode ++ rest)
      = some ⟨Descriptor.revision, d.resourceManager.getD 0, d.control, slotAt headerSize d.owner,
          slotAt d.groupStart d.group, slotAt d.saclStart d.sacl,
          slotAt d.daclStart d.dacl.stored?⟩ := by
  have hlast := daclStart_lt h
  have hsacl : d.saclStart < 4294967296 := Nat.lt_of_le_of_lt (Nat.le_add_right _ _) hlast
  have hgroup : d.groupStart < 4294967296 := Nat.lt_of_le_of_lt (Nat.le_add_right _ _) hsacl
  have howner : headerSize < 4294967296 := by decide
  have hpos : 0 < 4294967296 := by decide
  have hcontrol : d.control.bits.toNat % 65536 = d.control.bits.toNat :=
    Nat.mod_eq_of_lt d.control.bits.isLt
  rw [encode_eq, List.append_assoc]
  simp [Header.decode?, encodeHeader, slots_components, List.append_assoc, hcontrol,
    Nat.mod_eq_of_lt (slotAt_lt hpos howner d.owner),
    Nat.mod_eq_of_lt (slotAt_lt hpos hgroup d.group),
    Nat.mod_eq_of_lt (slotAt_lt hpos hsacl d.sacl),
    Nat.mod_eq_of_lt (slotAt_lt hpos hlast d.dacl.stored?)]

/-! ### The whole descriptor -/

/-- A list that is stored can be looked at. -/
theorem mem_list?_of_mem_stored? {dacl : Dacl} {list : AccessList} (h : list ∈ dacl.stored?) :
    list ∈ dacl.list? := by
  cases dacl with
  | absent => cases h
  | present other => exact h
  | synthetic other => cases h

/-- A list that is stored is marked as present. -/
theorem has_daclPresent {d : Descriptor} (h : d.settle = d)
    (hstored : d.dacl.stored?.isSome = true) : d.control.has .daclPresent = true := by
  obtain ⟨-, -, -, hdacl⟩ := settle_eq_iff.1 h
  rw [← hdacl]
  cases hstate : d.dacl with
  | absent =>
      rw [hstate] at hstored
      cases hstored
  | present list => rfl
  | synthetic list =>
      rw [hstate] at hstored
      cases hstored

/-- The control byte of the resource manager is read back where it is marked as valid. -/
theorem resourceManager_eq {d : Descriptor} (h : d.settle = d) :
    (if d.control.has .resourceManagerValid then some (d.resourceManager.getD 0) else none)
      = d.resourceManager := by
  obtain ⟨-, hmanager, -, -⟩ := settle_eq_iff.1 h
  rw [hmanager]
  cases d.resourceManager with
  | none => rfl
  | some byte => rfl

/-- **What is stored of a well-formed descriptor is read back**, whatever follows. -/
theorem decode_encode_append {d : Descriptor} (h : d.WellFormed) (rest : List UInt8) :
    decode (d.encode ++ rest) = .ok d.stored := by
  obtain ⟨hrelative, -, hsacl, -⟩ := settle_eq_iff.1 h.settled
  have hlength := d.length_encodeHeader
  have hsids : ∀ sid : Sid, ∀ rest, Sid.decode (sid.encode ++ rest) = .ok sid :=
    fun _ rest => Sid.decode_eq_ok_iff.2 ⟨rest, rfl⟩
  -- Each component stands behind the header and the components before it.
  let ownerBytes := (d.owner.map Sid.encode).getD []
  let groupBytes := (d.group.map Sid.encode).getD []
  let saclBytes := (d.sacl.map AccessList.encode).getD []
  let daclBytes := (d.dacl.stored?.map AccessList.encode).getD []
  have howner : decodeSlot Sid.decode (d.encode ++ rest) true (slotAt headerSize d.owner)
      = .ok d.owner := by
    refine decodeSlot_of_eq_append Sid.encode d.encodeHeader
      (groupBytes ++ (saclBytes ++ (daclBytes ++ rest))) (fun sid _ => hsids sid) (fun _ => rfl)
      hlength (by decide) ?_
    rw [encode_eq]
    simp only [List.append_assoc, groupBytes, saclBytes, daclBytes]
  have hgroup : decodeSlot Sid.decode (d.encode ++ rest) true (slotAt d.groupStart d.group)
      = .ok d.group := by
    refine decodeSlot_of_eq_append Sid.encode (d.encodeHeader ++ ownerBytes)
      (saclBytes ++ (daclBytes ++ rest)) (fun sid _ => hsids sid) (fun _ => rfl) ?_ ?_ ?_
    · rw [List.length_append, hlength, length_component Sid.length_encode, groupStart]
    · exact Nat.lt_of_lt_of_le (by decide) (Nat.le_add_right headerSize _)
    · rw [encode_eq]
      simp only [List.append_assoc, ownerBytes, saclBytes, daclBytes]
  have hsaclList : decodeSlot AccessList.decode (d.encode ++ rest) (d.control.has .saclPresent)
      (slotAt d.saclStart d.sacl) = .ok d.sacl := by
    refine decodeSlot_of_eq_append AccessList.encode (d.encodeHeader ++ ownerBytes ++ groupBytes)
      (daclBytes ++ rest) ?_ hsacl ?_ ?_ ?_
    · exact fun list hlist rest => AccessList.decode_encode_append (h.sacl list hlist) rest
    · rw [List.length_append, List.length_append, hlength, length_component Sid.length_encode,
        length_component Sid.length_encode, saclStart, groupStart]
    · rw [saclStart, groupStart, headerSize]
      omega
    · rw [encode_eq]
      simp only [List.append_assoc, ownerBytes, groupBytes, daclBytes]
  have hdaclList : decodeSlot AccessList.decode (d.encode ++ rest) (d.control.has .daclPresent)
      (slotAt d.daclStart d.dacl.stored?) = .ok d.dacl.stored? := by
    refine decodeSlot_of_eq_append AccessList.encode
      (d.encodeHeader ++ ownerBytes ++ groupBytes ++ saclBytes) rest ?_
      (has_daclPresent h.settled) ?_ ?_ ?_
    · intro list hlist rest
      exact AccessList.decode_encode_append (h.dacl list (mem_list?_of_mem_stored? hlist)) rest
    · rw [List.length_append, List.length_append, List.length_append, hlength,
        length_component Sid.length_encode, length_component Sid.length_encode,
        length_component AccessList.length_encode, daclStart, saclStart, groupStart]
    · rw [daclStart, saclStart, groupStart, headerSize]
      omega
    · rw [encode_eq]
      simp only [List.append_assoc, ownerBytes, groupBytes, saclBytes]
  rw [decode, Header.decode?_encode_append h]
  dsimp only
  rw [if_neg (fun h => h rfl), if_neg (by rw [hrelative]; decide), howner, Outcome.ok_bind, hgroup,
    Outcome.ok_bind, hsaclList, Outcome.ok_bind, hdaclList, Outcome.ok_bind,
    resourceManager_eq h.settled]
  exact congrArg Except.ok (settled_stored h.settled)

end Descriptor

end SecurityDescriptor
