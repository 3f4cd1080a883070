/-
A byte string that ends too early is refused.

Every binary form says how long it is.  An identifier announces the number of its sub-authorities,
an entry and a list declare their size in their headers, so a reader that is given less finds the
header incomplete or the declared size beyond the end.  A descriptor declares no size: it is as long
as its components reach.  The components are written one after another, so a cut behind the header leaves
the components in front of it whole and goes through the first one that is not, or lies in front of
it; the slot of that one leads to bytes that are themselves cut, or to none.

So the error for a descriptor tells where the cut is: in the header, in one of the identifiers or in
one of the lists.

Main definitions:

* `Decoder.RefusesCuts` — the bytes are refused wherever they are cut;
* `Descriptor.cutKind` — the class of the error for a descriptor that is cut.

Main results:

* `Sid.refusesCuts`, `Entry.refusesCuts`, `AccessList.refusesCuts` — no part of a binary form is
  taken for the whole or for anything else;
* `Descriptor.decodeSlot_take` — a slot leads to a whole component or to one that is refused;
* `Descriptor.decode_take_encode` — a descriptor that is cut is refused by the component that is
  cut;
* `decodeAt_take_encode` — **truncation is always detected**.
-/

import SecurityDescriptor.Proofs.Damage
import SecurityDescriptor.Proofs.Descriptor.Layout
import SecurityDescriptor.Proofs.Locality

set_option relaxedAutoImplicit false
set_option autoImplicit false

namespace SecurityDescriptor

/-- The bytes are refused, with an error of the given class, wherever they are cut. -/
def Decoder.RefusesCuts {α : Type} (decode : Decoder α) (bytes : List UInt8) (kind : Error.Kind) :
    Prop :=
  ∀ cut < bytes.length, ∃ e, decode (bytes.take cut) = .error e ∧ e.kind = kind

theorem Decoder.RefusesCuts.startingAt {α : Type} {decode : Decoder α} {bytes : List UInt8}
    {kind : Error.Kind} (h : decode.RefusesCuts bytes kind) {cut : Nat}
    (hcut : cut < bytes.length) :
    ∃ e, decode.startingAt (bytes.take cut) 0 = .error e ∧ e.kind = kind := by
  rw [startingAt_zero]
  exact h cut hcut

/-- What is read from a part is what is read from the whole, by a reader that does not mind what
follows. -/
theorem Octets.eq_of_read_take {α : Type} {read? : List UInt8 → Option α}
    (happend : ∀ {bytes : List UInt8} {a : α}, read? bytes = some a →
      ∀ more : List UInt8, read? (bytes ++ more) = some a)
    {bytes : List UInt8} {cut : Nat} {part whole : α} (hpart : read? (bytes.take cut) = some part)
    (hwhole : read? bytes = some whole) : part = whole := by
  have hsame := happend hpart (bytes.drop cut)
  rw [List.take_append_drop, hwhole] at hsame
  exact (Option.some.inj hsame).symm

/-! ### Identifiers, entries and lists -/

/-- What is read from a part would be read from the whole as well, so it would be the identifier
itself; but that one has more bytes than the part. -/
theorem Sid.refusesCuts (sid : Sid) :
    Decoder.RefusesCuts Sid.decode sid.encode .malformedIdentifier := by
  intro cut hcut
  cases hread : decode (sid.encode.take cut) with
  | error e => exact ⟨e, rfl, List.mem_singleton.mp (isDamage_of_decode hread).kind_mem⟩
  | ok other =>
      have hwhole := isExtensible_decode hread (sid.encode.drop cut)
      have hself := decode_encode_append sid []
      rw [List.take_append_drop] at hwhole
      rw [List.append_nil, hwhole] at hself
      cases hself
      obtain ⟨rest, hbytes⟩ := decode_eq_ok_iff.mp hread
      have hlength := congrArg List.length hbytes
      rw [List.length_take, List.length_append] at hlength
      omega

namespace Entry

/-- The header of an entry is read from any part that reaches behind it. -/
theorem Header.decode?_take_encode {entry : Entry} (h : entry.body.WellFormed) {cut : Nat}
    (hcut : headerSize ≤ cut) :
    Header.decode? (entry.encode.take cut) = some ⟨entry.code, entry.flags, entry.size⟩ := by
  have hle := h.size_le
  rw [maxSize] at hle
  have hparts : entry.encode.take cut
      = entry.encodeHeader entry.size ++ (encodeBody entry.body).take (cut - headerSize) := by
    rw [encode_eq_encodeDeclaring, encodeDeclaring, List.take_append, length_encodeHeader,
      List.take_of_length_le (by rwa [length_encodeHeader])]
  exact Header.decode?_eq_some_iff.mpr ⟨Nat.lt_succ_of_le hle, _, hparts⟩

theorem refusesCuts {entry : Entry} (h : entry.body.WellFormed) :
    Decoder.RefusesCuts Entry.decode entry.encode .malformedEntry := by
  intro cut hcut
  have hlength : (entry.encode.take cut).length = cut := List.length_take_of_le (Nat.le_of_lt hcut)
  by_cases hheader : headerSize ≤ cut
  · have hshort : Octets.split? entry.size (entry.encode.take cut) = none := by
      rw [Octets.split?_eq_none_iff, hlength, ← length_encode]
      exact hcut
    rw [decode, Header.decode?_take_encode h hheader]
    dsimp only
    rw [hshort]
    exact ⟨_, rfl, rfl⟩
  · rw [decode, Header.decode?_eq_none_iff.mpr (by omega)]
    exact ⟨_, rfl, rfl⟩

end Entry

namespace AccessList

/-- The header of a list is read from any part that reaches behind it. -/
theorem Header.decode?_take_encode {list : AccessList} (h : list.WellFormed) {cut : Nat}
    (hcut : headerSize ≤ cut) (hle : cut ≤ list.encode.length) :
    Header.decode? (list.encode.take cut) = some ⟨list.revision, list.size, list.count⟩ := by
  have hlong : headerSize ≤ (list.encode.take cut).length := by
    rwa [List.length_take_of_le hle]
  cases hsplit : Octets.split? headerSize (list.encode.take cut) with
  | none => exact absurd (Octets.split?_eq_none_iff.mp hsplit) (Nat.not_lt.mpr hlong)
  | some parts =>
      obtain ⟨revision, declared, count, -, -, -, hread⟩ := Header.exists_fields hsplit
      have hwhole := Header.decode?_encode_append h.size_le []
      rw [List.append_nil] at hwhole
      rw [hread, Octets.eq_of_read_take Header.decode?_append hread hwhole]

theorem refusesCuts {list : AccessList} (h : list.WellFormed) :
    Decoder.RefusesCuts AccessList.decode list.encode .malformedList := by
  intro cut hcut
  have hlength : (list.encode.take cut).length = cut := List.length_take_of_le (Nat.le_of_lt hcut)
  by_cases hheader : headerSize ≤ cut
  · have hshort : Octets.split? list.size (list.encode.take cut) = none := by
      rw [Octets.split?_eq_none_iff, hlength, ← length_encode]
      exact hcut
    rw [decode, Header.decode?_take_encode h hheader (Nat.le_of_lt hcut)]
    dsimp only
    rw [hshort]
    exact ⟨_, rfl, rfl⟩
  · rw [decode, Header.decode?_eq_none (by omega)]
    exact ⟨_, rfl, rfl⟩

end AccessList

/-! ### Descriptors -/

namespace Descriptor

/-- **What a slot of cut bytes leads to**: a component that ends in front of the cut and is read, or
one that does not and is refused. -/
inductive SlotTaken {α : Type} (component : Option α) (kind : Error.Kind) (cut stop : Nat)
    (result : Except Error (Option α)) : Prop
  | whole (hstop : stop ≤ cut) (h : result = .ok component)
  | refused (hcut : cut < stop) (e : Error) (h : result = .error e) (hkind : e.kind = kind)

/-- A component stands behind `front` and ends at `stop`, and the cut is not in `front`. -/
theorem decodeSlot_take {α : Type} {decode : Decoder α} {encode : α → List UInt8}
    {component : Option α} {bytes : List UInt8} (front rest : List UInt8) {start stop cut : Nat}
    {inUse : Bool} {kind : Error.Kind}
    (hread : ∀ a ∈ component, ∀ rest, decode (encode a ++ rest) = .ok a)
    (hrefuses : ∀ a ∈ component, decode.RefusesCuts (encode a) kind)
    (huse : component.isSome = true → inUse = true) (hpos : 0 < start)
    (hbytes : bytes = front ++ ((component.map encode).getD [] ++ rest))
    (hstart : front.length = start) (hstop : start + ((component.map encode).getD []).length = stop)
    (hcut : start ≤ cut) :
    SlotTaken component kind cut stop
      (decodeSlot decode (bytes.take cut) inUse (slotAt start component)) := by
  subst hbytes
  have hfront : (front ++ ((component.map encode).getD [] ++ rest)).take cut
      = front ++ ((component.map encode).getD [] ++ rest).take (cut - start) := by
    rw [List.take_append, List.take_of_length_le (by omega), hstart]
  by_cases hwhole : stop ≤ cut
  · refine .whole hwhole (decodeSlot_of_eq_append encode front
      (rest.take (cut - start - ((component.map encode).getD []).length)) hread huse hstart hpos ?_)
    rw [hfront, List.take_append, List.take_of_length_le (by omega)]
  · cases component with
    | none => exact absurd (hstop ▸ hcut) hwhole
    | some a =>
        rw [Option.map_some, Option.getD_some] at hstop hfront ⊢
        -- The slot leads to the bytes of the component, as far as they are there.
        obtain ⟨e, he, hkind⟩ := hrefuses a rfl (cut - start) (by omega)
        have hslot : slotAt start (some a) = start := rfl
        have hpart : decode.startingAt ((front ++ (encode a ++ rest)).take cut) start
            = .error (e.shift start) := by
          rw [hfront, Decoder.startingAt, List.drop_left' hstart,
            List.take_append_of_le_length (by omega), he]
          rfl
        refine .refused (Nat.lt_of_not_le hwhole) (e.shift start) ?_ ?_
        · rw [decodeSlot, hslot, if_pos ⟨huse rfl, Nat.ne_of_gt hpos⟩, hpart]
          rfl
        · rw [Error.kind_shift, hkind]

section Slots

variable {d : Descriptor} {cut : Nat}

theorem decodeSlot_owner_take (hcut : headerSize ≤ cut) :
    SlotTaken d.owner .malformedIdentifier cut d.groupStart
      (decodeSlot Sid.decode (d.encode.take cut) true (slotAt headerSize d.owner)) := by
  refine decodeSlot_take d.encodeHeader _ (fun sid _ => sid.decode_encode_append)
    (fun sid _ => sid.refusesCuts) (fun _ => rfl) (by decide) d.encode_eq d.length_encodeHeader ?_
    hcut
  rw [length_component Sid.length_encode, groupStart]

theorem decodeSlot_group_take (hcut : d.groupStart ≤ cut) :
    SlotTaken d.group .malformedIdentifier cut d.saclStart
      (decodeSlot Sid.decode (d.encode.take cut) true (slotAt d.groupStart d.group)) := by
  refine decodeSlot_take (d.encodeHeader ++ (d.owner.map Sid.encode).getD []) _
    (fun sid _ => sid.decode_encode_append) (fun sid _ => sid.refusesCuts) (fun _ => rfl) ?_
    (d.encode_eq.trans (List.append_assoc ..).symm) ?_ ?_ hcut
  · exact Nat.lt_of_lt_of_le (by decide) (Nat.le_add_right headerSize _)
  · rw [List.length_append, d.length_encodeHeader, length_component Sid.length_encode, groupStart]
  · rw [length_component Sid.length_encode, saclStart]

theorem decodeSlot_sacl_take (h : d.WellFormed) (hcut : d.saclStart ≤ cut) :
    SlotTaken d.sacl .malformedList cut d.daclStart
      (decodeSlot AccessList.decode (d.encode.take cut) (d.control.has .saclPresent)
        (slotAt d.saclStart d.sacl)) := by
  obtain ⟨-, -, huse, -⟩ := settle_eq_iff.mp h.settled
  refine decodeSlot_take
    (d.encodeHeader ++ (d.owner.map Sid.encode).getD [] ++ (d.group.map Sid.encode).getD [])
    ((d.dacl.stored?.map AccessList.encode).getD [])
    (fun list hlist => AccessList.decode_encode_append (h.sacl list hlist))
    (fun list hlist => AccessList.refusesCuts (h.sacl list hlist)) huse ?_ ?_ ?_ ?_ hcut
  · rw [saclStart, groupStart, headerSize]
    omega
  · simp only [encode_eq, List.append_assoc]
  · simp only [List.length_append, d.length_encodeHeader, length_component Sid.length_encode,
      saclStart, groupStart]
  · rw [length_component AccessList.length_encode, daclStart]

theorem decodeSlot_dacl_take (h : d.WellFormed) (hcut : d.daclStart ≤ cut) :
    SlotTaken d.dacl.stored? .malformedList cut d.encode.length
      (decodeSlot AccessList.decode (d.encode.take cut) (d.control.has .daclPresent)
        (slotAt d.daclStart d.dacl.stored?)) := by
  have hlist : ∀ list ∈ d.dacl.stored?, list.WellFormed :=
    fun list hlist => h.dacl list (mem_list?_of_mem_stored? hlist)
  refine decodeSlot_take
    (d.encodeHeader ++ (d.owner.map Sid.encode).getD [] ++ (d.group.map Sid.encode).getD [] ++
      (d.sacl.map AccessList.encode).getD []) []
    (fun list hmem => AccessList.decode_encode_append (hlist list hmem))
    (fun list hmem => AccessList.refusesCuts (hlist list hmem)) (has_daclPresent h.settled)
    ?_ ?_ ?_ ?_ hcut
  · rw [daclStart, saclStart, groupStart, headerSize]
    omega
  · simp only [encode_eq, List.append_assoc, List.append_nil]
  · simp only [List.length_append, d.length_encodeHeader, length_component Sid.length_encode,
      length_component AccessList.length_encode, daclStart, saclStart, groupStart]
  · simp only [encode_eq, List.length_append, d.length_encodeHeader,
      length_component Sid.length_encode, length_component AccessList.length_encode, daclStart,
      saclStart, groupStart, Nat.add_assoc]

end Slots

/-- **The class of the error for a descriptor that is cut** tells where the cut is: in the header,
in an identifier, or in a list. -/
def cutKind (d : Descriptor) (cut : Nat) : Error.Kind :=
  if cut < headerSize then .malformedDescriptor
  else if cut < d.saclStart then .malformedIdentifier
  else .malformedList

theorem isMalformed_cutKind (d : Descriptor) (cut : Nat) : (d.cutKind cut).isMalformed = true := by
  unfold cutKind
  split
  · rfl
  · split <;> rfl

/-- The header of a descriptor is read from any part that reaches behind it. -/
theorem Header.decode?_take_encode {d : Descriptor} (h : d.WellFormed) {cut : Nat}
    (hcut : headerSize ≤ cut) (hle : cut ≤ d.encode.length) :
    Header.decode? (d.encode.take cut)
      = some ⟨Descriptor.revision, d.resourceManager.getD 0, d.control, slotAt headerSize d.owner,
          slotAt d.groupStart d.group, slotAt d.saclStart d.sacl,
          slotAt d.daclStart d.dacl.stored?⟩ := by
  have hlong : headerSize ≤ (d.encode.take cut).length := by
    rwa [List.length_take_of_le hle]
  obtain ⟨header, -, hread, -⟩ := Header.exists_decode? hlong
  have hwhole := Header.decode?_encode_append h []
  rw [List.append_nil] at hwhole
  rw [hread, Octets.eq_of_read_take Header.decode?_append hread hwhole]

/-- **A descriptor that is cut is refused by the component that is cut**: the components are read in
the order in which they stand, so those in front of it are whole. -/
theorem decode_take_encode {d : Descriptor} (h : d.WellFormed) {cut : Nat}
    (hcut : cut < d.encode.length) :
    ∃ e, decode (d.encode.take cut) = .error e ∧ e.kind = d.cutKind cut := by
  unfold cutKind
  by_cases hheader : cut < headerSize
  · have hshort : (d.encode.take cut).length < headerSize := by
      rwa [List.length_take_of_le (Nat.le_of_lt hcut)]
    rw [decode, Header.decode?_eq_none hshort, if_pos hheader]
    exact ⟨_, rfl, rfl⟩
  have hreach : headerSize ≤ cut := Nat.le_of_not_lt hheader
  have hrelative := (settle_eq_iff.mp h.settled).1
  rw [if_neg hheader, decode, Header.decode?_take_encode h hreach (Nat.le_of_lt hcut)]
  dsimp only
  rw [if_neg (fun hne => hne rfl), if_neg (by rw [hrelative]; decide)]
  rcases decodeSlot_owner_take hreach with ⟨hreach, howner⟩ | ⟨hlt, e, he, hkind⟩
  case refused =>
    have hle : d.groupStart ≤ d.saclStart := Nat.le_add_right ..
    rw [he, if_pos (Nat.lt_of_lt_of_le hlt hle)]
    exact ⟨e, rfl, hkind⟩
  rcases decodeSlot_group_take hreach with ⟨hreach, hgroup⟩ | ⟨hlt, e, he, hkind⟩
  case refused =>
    rw [howner, Outcome.ok_bind, he, if_pos hlt]
    exact ⟨e, rfl, hkind⟩
  rw [howner, Outcome.ok_bind, hgroup, Outcome.ok_bind, if_neg (Nat.not_lt.mpr hreach)]
  rcases decodeSlot_sacl_take h hreach with ⟨hreach, hsacl⟩ | ⟨hlt, e, he, hkind⟩
  case refused =>
    rw [he]
    exact ⟨e, rfl, hkind⟩
  rcases decodeSlot_dacl_take h hreach with ⟨hreach, -⟩ | ⟨hlt, e, he, hkind⟩
  case refused =>
    rw [hsacl, Outcome.ok_bind, he]
    exact ⟨e, rfl, hkind⟩
  -- Behind the last component there is nothing to cut off.
  exact absurd hcut (Nat.not_lt.mpr hreach)

end Descriptor

/-- **Truncation is always detected.**  Whatever is cut off the end of the binary form of something
that can be had, the rest is refused as damaged: for an identifier, an entry or a list by its own
class of damage, and for a descriptor by the class of the part that is cut. -/
theorem decodeAt_take_encode :
    (∀ sid : Sid, ∀ cut < sid.encode.length,
      ∃ e, Sid.decodeAt (sid.encode.take cut) 0 = .error e ∧ e.kind = .malformedIdentifier) ∧
    (∀ entry : Entry, entry.Reachable → ∀ cut < entry.encode.length,
      ∃ e, Entry.decodeAt (entry.encode.take cut) 0 = .error e ∧ e.kind = .malformedEntry) ∧
    (∀ list : AccessList, list.Reachable → ∀ cut < list.encode.length,
      ∃ e, AccessList.decodeAt (list.encode.take cut) 0 = .error e ∧ e.kind = .malformedList) ∧
    ∀ d : Descriptor, d.Reachable → ∀ cut < d.encode.length,
      ∃ e, Descriptor.decodeAt (d.encode.take cut) 0 = .error e ∧ e.isMalformed = true ∧
        e.kind = d.cutKind cut := by
  refine ⟨?_, ?_, ?_, ?_⟩
  · intro sid cut hcut
    exact sid.refusesCuts.startingAt hcut
  · intro entry hentry cut hcut
    exact (Entry.refusesCuts hentry.wellFormed).startingAt hcut
  · intro list hlist cut hcut
    exact (AccessList.refusesCuts hlist.wellFormed).startingAt hcut
  · intro d hd cut hcut
    obtain ⟨e, he, hkind⟩ := Descriptor.decode_take_encode hd.wellFormed hcut
    refine ⟨e, ?_, ?_, hkind⟩
    · rw [Descriptor.decodeAt, Decoder.startingAt_zero, he]
    · rw [Error.isMalformed, hkind, d.isMalformed_cutKind]

/-- A descriptor that is owned by everyone and grants everyone everything: the header ends at 20,
the owner at 32 and the list at 60. -/
def publicDescriptor : Descriptor :=
  .make .none (some Descriptor.everyone) none none (some (Descriptor.fullAccessList false false))

/-- With a cut inside the owner, and with one right behind it, where all that is there is whole. -/
theorem decodeAt_take_encode_public :
    publicDescriptor.encode.length = 60 ∧
      (∃ e, Descriptor.decodeAt (publicDescriptor.encode.take 31) 0 = .error e ∧
        e.isMalformed = true ∧ e.kind = .malformedIdentifier) ∧
      ∃ e, Descriptor.decodeAt (publicDescriptor.encode.take 32) 0 = .error e ∧
        e.isMalformed = true ∧ e.kind = .malformedList := by
  have hreachable : publicDescriptor.Reachable := by
    refine .made .none _ none (fun list hlist => ?_) (fun list hlist => ?_)
    · cases hlist
    · cases hlist
      exact Descriptor.reachable_fullAccessList false false
  have hdescriptor := decodeAt_take_encode.2.2.2 publicDescriptor hreachable
  exact ⟨by decide, hdescriptor 31 (by decide), hdescriptor 32 (by decide)⟩

end SecurityDescriptor
