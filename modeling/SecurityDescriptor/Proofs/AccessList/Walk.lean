/-
What reading a list has made sure of.

The reader goes from entry to entry with a cursor.  Under the revision of directory service lists the
size that an entry declares tells where the next one stands, under every other revision its true
size; the declared size is held against the end of the list in both.  No entry is greater than it
declares, so the cursor is never behind the entries that were read, and this is the invariant of the
walk: together with the entries to come they fit in the size of the list.  It makes the check of the
running total vacuous.

What decides the result is the revision, the size and the count in the header, and the entries at
their true sizes; nothing else that the list covers is looked at.

Main definitions:

* `AccessList.Stop`, `AccessList.Walk` — an entry on the way of the cursor, and the way;
* `AccessList.Stop.IsFound` — an entry stands at its cursor and its declared bytes are there;
* `AccessList.IsRead` — what bytes have to hold for a list to be read from them;
* `AccessList.Matters` — the positions that decide what is read.

Main results:

* `Entry.decode_congr` — an entry is read from any bytes that have its true size in common;
* `AccessList.decodeEntries_eq_ok_iff`, `AccessList.decodeEntries_ne_tooLong` — the loop, from any
  cursor on;
* `AccessList.decodeAt_eq_ok_iff` — **a list is read exactly along a walk** that stays in its size;
* `AccessList.decodeAt_sound` — a walk leads over disjoint entries, no list is ever too long for
  itself, and the bytes in between have no influence.
-/

import SecurityDescriptor.Proofs.AccessList.Layout
import SecurityDescriptor.Proofs.AccessList.Positional
import SecurityDescriptor.Proofs.Damage

set_option relaxedAutoImplicit false
set_option autoImplicit false

namespace SecurityDescriptor

/-! ### Bytes in common -/

/-- Two byte strings that agree inside a window have the same window. -/
theorem Octets.take_drop_congr {bytes other : List UInt8} {start n : Nat}
    (h : ∀ i, start ≤ i → i < start + n → other[i]? = bytes[i]?) :
    (other.drop start).take n = (bytes.drop start).take n := by
  apply List.ext_getElem?
  intro i
  rw [List.getElem?_take, List.getElem?_take, List.getElem?_drop, List.getElem?_drop]
  split
  · exact h (start + i) (by omega) (by omega)
  · rfl

/-- What stands in a spelling behind the true size of the body is arbitrary. -/
theorem Body.Spelling.of_take_eq {body : Body} {bytes other : List UInt8} (h : body.Spelling bytes)
    (hlength : other.length = bytes.length)
    (htake : other.take (body.size - Entry.headerSize)
      = bytes.take (body.size - Entry.headerSize)) :
    body.Spelling other := by
  have hsize := body.headerSize_add_length_encodeBody
  -- A spelling of the true size is the same one.
  have hsame : bytes.length = (Entry.encodeBody body).length → other = bytes := by
    intro hexact
    rwa [List.take_of_length_le (by omega), List.take_of_length_le (by omega)] at htake
  cases h with
  | exact =>
      rw [hsame rfl]
      exact .exact body
  | padded mask sid padding hpadding =>
      rw [hsame (by simp only [Entry.encodeBody, List.length_append, Octets.length_little, hpadding])]
      exact .padded mask sid padding hpadding
  | surplus rule target surplus hcallback hsurplus =>
      have hfront : other.take (Entry.encodeBody (.object rule target)).length
          = Entry.encodeBody (.object rule target) := by
        have hlong : (Body.object rule target).size - Entry.headerSize
            = (Entry.encodeBody (.object rule target)).length := by omega
        rwa [hlong, List.take_left] at htake
      rw [← List.take_append_drop (Entry.encodeBody (.object rule target)).length other, hfront]
      refine .surplus rule target _ hcallback ?_
      rw [List.length_drop, hlength, List.length_append, hsurplus, Nat.add_sub_cancel_left]

namespace Entry

/-- **An entry is read from any bytes that have its true size in common** and of which there are as
many as it declares. -/
theorem decode_congr {bytes other : List UInt8} {header : Header} {entry : Entry}
    (hheader : Header.decode? bytes = some header) (hread : decode bytes = .ok entry)
    (hlength : header.size ≤ other.length) (hsame : other.take entry.size = bytes.take entry.size) :
    Header.decode? other = some header ∧ decode other = .ok entry := by
  have hsize := size_le_of_decode hheader hread
  have hlong := entry.headerSize_le_size
  obtain ⟨hwf, -⟩ := exists_spelling_of_decode hread
  obtain ⟨body, rest, hspell, hmax, rfl, hbytes⟩ := exists_spelling_of_header hheader hread
  dsimp only at hsize hlength
  let front := entry.encodeHeader (headerSize + body.length)
  have hfront : front.length = headerSize := entry.length_encodeHeader _
  -- The other bytes begin with the same header, and behind it stands a spelling as well.
  let spelling := (other.drop headerSize).take body.length
  have hheaderSame : other.take headerSize = front := by
    have htake := congrArg (List.take headerSize) hsame
    rw [List.take_take, List.take_take, Nat.min_eq_left hlong, hbytes,
      List.take_left' hfront] at htake
    exact htake
  have hspelling : spelling.length = body.length := by
    refine List.length_take_of_le ?_
    rw [List.length_drop]
    omega
  have hspellingSame : spelling.take (entry.size - headerSize)
      = body.take (entry.size - headerSize) := by
    have hdrop := congrArg (List.drop headerSize) hsame
    rw [List.drop_take, List.drop_take, hbytes, List.drop_left' hfront,
      List.take_append_of_le_length (by omega)] at hdrop
    rw [List.take_take, Nat.min_eq_left (by omega), hdrop]
  have hother : other = front ++ (spelling ++ (other.drop headerSize).drop body.length) := by
    rw [List.take_append_drop, ← hheaderSame, List.take_append_drop]
  have hlt : headerSize + body.length < 65536 := by
    simp only [maxCustomExtra, maxSize, headerSize] at hmax ⊢
    omega
  refine ⟨Header.decode?_eq_some_iff.mpr ⟨hlt, _, hother⟩, decode_eq_ok_iff.mpr ⟨hwf, spelling,
    (other.drop headerSize).drop body.length, ?_, ?_, ?_⟩⟩
  · exact hspell.of_take_eq hspelling hspellingSame
  · rwa [hspelling]
  · rw [hspelling]
    exact hother

end Entry

namespace AccessList

/-! ### The way of the cursor -/

/-- **An entry on the way of the cursor**: where it stands, and the size that it declares. -/
structure Stop where
  cursor : Nat
  declared : Nat
  entry : Entry
  deriving DecidableEq, Repr

/-- **The way of the cursor** through a list of the given revision, from where it stands. -/
inductive Walk (revision : UInt8) : Nat → List Stop → Prop
  | done (cursor : Nat) : Walk revision cursor []
  | step (stop : Stop) {stops : List Stop}
      (h : Walk revision (stop.cursor + stride revision stop.declared stop.entry.size) stops) :
      Walk revision stop.cursor (stop :: stops)

/-- **The entry of a stop is what stands at its cursor**, and the bytes that it declares end at the
limit or before. -/
structure Stop.IsFound (stop : Stop) (bytes : List UInt8) (limit : Nat) : Prop where
  declares : Entry.Header.decode? (bytes.drop stop.cursor)
    = some ⟨stop.entry.code, stop.entry.flags, stop.declared⟩
  reads : Entry.decodeAt bytes stop.cursor = .ok stop.entry
  within : stop.cursor + stop.declared ≤ limit

namespace Stop.IsFound

variable {stop : Stop} {bytes other : List UInt8} {limit : Nat}

theorem size_le (h : stop.IsFound bytes limit) : stop.entry.size ≤ stop.declared :=
  Entry.size_le_of_decode h.declares (Decoder.startingAt_eq_ok_iff.mp h.reads)

/-- An entry is found in any bytes that reach as far and have its true size in common. -/
theorem congr (h : stop.IsFound bytes limit) (hlength : limit ≤ other.length)
    (hsame : ∀ i, stop.cursor ≤ i → i < stop.cursor + stop.entry.size → other[i]? = bytes[i]?) :
    stop.IsFound other limit := by
  have hwithin := h.within
  have hfits : stop.declared ≤ (other.drop stop.cursor).length := by
    rw [List.length_drop]
    omega
  obtain ⟨hdeclares, hreads⟩ := Entry.decode_congr h.declares
    (Decoder.startingAt_eq_ok_iff.mp h.reads) hfits (Octets.take_drop_congr hsame)
  exact ⟨hdeclares, Decoder.startingAt_eq_ok_iff.mpr hreads, hwithin⟩

end Stop.IsFound

/-- Nothing behind the limit is looked at. -/
theorem Stop.isFound_take_iff {stop : Stop} {bytes : List UInt8} {limit : Nat}
    (hlimit : limit ≤ bytes.length) :
    stop.IsFound (bytes.take limit) limit ↔ stop.IsFound bytes limit := by
  have hsame : ∀ i, i < limit → (bytes.take limit)[i]? = bytes[i]? :=
    fun i hi => List.getElem?_take_of_lt hi
  constructor
  · intro h
    have hsize := h.size_le
    have hwithin := h.within
    exact h.congr hlimit fun i _ hi => (hsame i (by omega)).symm
  · intro h
    have hsize := h.size_le
    have hwithin := h.within
    exact h.congr (List.length_take_of_le hlimit).ge fun i _ hi => hsame i (by omega)

theorem le_stride (revision : UInt8) {declared actual : Nat} (h : actual ≤ declared) :
    actual ≤ stride revision declared actual := by
  rw [stride]
  split
  · exact h
  · exact Nat.le_refl actual

namespace Walk

variable {revision : UInt8} {cursor limit : Nat} {stops : List Stop}

/-- The cursor never goes back. -/
theorem le_cursor (h : Walk revision cursor stops) : ∀ stop ∈ stops, cursor ≤ stop.cursor := by
  induction h with
  | done cursor => exact fun _ hmem => (List.not_mem_nil hmem).elim
  | step _ _ ih =>
      intro stop hstop
      rcases List.mem_cons.mp hstop with rfl | hstop
      · exact Nat.le_refl _
      · exact Nat.le_trans (Nat.le_add_right ..) (ih stop hstop)

/-- **The entries on the way are disjoint and in order.** -/
theorem pairwise (h : Walk revision cursor stops)
    (hsize : ∀ stop ∈ stops, stop.entry.size ≤ stop.declared) :
    stops.Pairwise fun a b => a.cursor + a.entry.size ≤ b.cursor := by
  induction h with
  | done cursor => exact .nil
  | step stop h ih =>
      refine .cons ?_ (ih fun other hother => hsize other (List.mem_cons_of_mem _ hother))
      intro other hother
      have hstride := le_stride revision (hsize stop (List.mem_cons_self ..))
      exact Nat.le_trans (Nat.add_le_add_left hstride stop.cursor) (h.le_cursor other hother)

/-- The entries on the way fit between its start and any limit that none is declared beyond. -/
theorem add_entriesSize_le (h : Walk revision cursor stops) (hstart : cursor ≤ limit)
    (hsize : ∀ stop ∈ stops, stop.entry.size ≤ stop.declared)
    (hwithin : ∀ stop ∈ stops, stop.cursor + stop.declared ≤ limit) :
    cursor + entriesSize (stops.map Stop.entry) ≤ limit := by
  induction h with
  | done cursor => exact hstart
  | step stop h ih =>
      have hhead := hsize stop (List.mem_cons_self ..)
      have hstride := le_stride revision hhead
      have hnext := stride_le revision hhead
      have hend := hwithin stop (List.mem_cons_self ..)
      have hrest := ih (by omega) (fun other hother => hsize other (List.mem_cons_of_mem _ hother))
        (fun other hother => hwithin other (List.mem_cons_of_mem _ hother))
      rw [List.map_cons, entriesSize_cons]
      omega

end Walk

/-! ### The loop -/

variable {view : List UInt8} {cursor count start total : Nat}

/-- An entry that stands at the cursor keeps the total within the bytes up to the cursor. -/
theorem add_size_le (revision : UInt8) {header : Entry.Header} {entry : Entry}
    (hfit : total + view.length ≤ cursor + maxSize)
    (hheader : Entry.Header.decode? (view.drop cursor) = some header)
    (hread : Entry.decode (view.drop cursor) = .ok entry)
    (hlength : header.size ≤ (view.drop cursor).length) :
    total + entry.size ≤ maxSize ∧
      total + entry.size + view.length
        ≤ cursor + stride revision header.size entry.size + maxSize := by
  have hsize := Entry.size_le_of_decode hheader hread
  have hlong := entry.headerSize_le_size
  have hstride := le_stride revision hsize
  rw [List.length_drop] at hlength
  rw [Entry.headerSize] at hlong
  omega

/-- **The loop reads exactly along a walk.**  The total of what was read is at most as far as the
cursor has come, and all that is in view fits in a list, so the total is never too great. -/
theorem decodeEntries_eq_ok_iff {revision : UInt8} (hfit : total + view.length ≤ cursor + maxSize)
    {entries : List Entry} :
    decodeEntries revision count start total (view.drop cursor) = .ok entries
      ↔ ∃ stops, stops.length = count ∧ stops.map Stop.entry = entries ∧
          Walk revision cursor stops ∧ ∀ stop ∈ stops, stop.IsFound view view.length := by
  induction count generalizing cursor start total entries with
  | zero =>
      constructor
      · intro h
        cases h
        exact ⟨[], rfl, rfl, .done cursor, fun _ hmem => (List.not_mem_nil hmem).elim⟩
      · rintro ⟨stops, hcount, rfl, -, -⟩
        rw [List.length_eq_zero_iff.mp hcount]
        rfl
  | succ count ih =>
      rw [decodeEntries_succ_eq_ok_iff]
      constructor
      · rintro ⟨header, entry, others, hheader, hlength, hread, -, hothers, rfl⟩
        obtain ⟨-, hnext⟩ := add_size_le revision hfit hheader hread hlength
        rw [List.drop_drop] at hothers
        obtain ⟨stops, rfl, rfl, hwalk, hfound⟩ := (ih hnext).mp hothers
        have hstop : Stop.IsFound ⟨cursor, header.size, entry⟩ view view.length := by
          obtain ⟨body, rest, -, -, hnamed, -⟩ := Entry.exists_spelling_of_header hheader hread
          refine ⟨by rw [hheader, hnamed], Decoder.startingAt_eq_ok_iff.mpr hread, ?_⟩
          have hsize := Entry.size_le_of_decode hheader hread
          have hlong := entry.headerSize_le_size
          rw [List.length_drop] at hlength
          rw [Entry.headerSize] at hlong
          dsimp only
          omega
        refine ⟨⟨cursor, header.size, entry⟩ :: stops, rfl, rfl,
          .step ⟨cursor, header.size, entry⟩ hwalk, ?_⟩
        intro stop hmem
        rcases List.mem_cons.mp hmem with rfl | hmem
        · exact hstop
        · exact hfound stop hmem
      · rintro ⟨stops, hcount, rfl, hwalk, hfound⟩
        cases hwalk with
        | done cursor => cases hcount
        | @step stop stops hwalk =>
            have hstop := hfound stop (List.mem_cons_self ..)
            have hread := Decoder.startingAt_eq_ok_iff.mp hstop.reads
            have hlength : stop.declared ≤ (view.drop stop.cursor).length := by
              have hwithin := hstop.within
              rw [List.length_drop]
              omega
            obtain ⟨htotal, hnext⟩ :=
              add_size_le revision hfit hstop.declares hread hlength
            refine ⟨_, stop.entry, stops.map Stop.entry, hstop.declares, hlength, hread, htotal, ?_,
              rfl⟩
            rw [List.drop_drop]
            exact (ih hnext).mpr ⟨stops, Nat.succ.inj hcount, rfl, hwalk,
              fun other hother => hfound other (List.mem_cons_of_mem _ hother)⟩

/-- **No list is too long for itself.** -/
theorem decodeEntries_ne_tooLong {revision : UInt8}
    (hfit : total + view.length ≤ cursor + maxSize) (place : Nat) :
    decodeEntries revision count start total (view.drop cursor)
      ≠ .error (.list .tooLong place) := by
  induction count generalizing cursor start total with
  | zero =>
      intro h
      cases h
  | succ count ih =>
      intro h
      generalize herror : Error.list .tooLong place = e at h
      cases stepFailure_of_decodeEntries h with
      | framing fault n hfault hn =>
          cases herror
          exact hfault rfl
      | @body header e hframed he =>
          -- An entry that cannot be read is not a fault of the list.
          have hkind := (Entry.isDamage_of_decode he).kind_mem
          rw [← Error.kind_shift start e, ← herror] at hkind
          rcases List.mem_pair.mp hkind with hkind | hkind <;> cases hkind
      | tooLong hframed hread htotal =>
          obtain ⟨hle, -⟩ := add_size_le revision hfit hframed.read hread hframed.fits
          exact absurd htotal (Nat.not_lt.mpr hle)
      | behind hframed hread hothers =>
          obtain ⟨-, hnext⟩ := add_size_le revision hfit hframed.read hread hframed.fits
          rw [List.drop_drop, ← herror] at hothers
          exact ih hnext hothers

/-! ### The whole list -/

/-- **What bytes have to hold for a list to be read from them**: a header whose size they cover, and
as many entries as it counts on the way of the cursor behind it, none declared beyond the size. -/
structure IsRead (bytes : List UInt8) (offset : Nat) (header : Header) (stops : List Stop)
    (list : AccessList) : Prop where
  declares : Header.decode? (bytes.drop offset) = some header
  headed : headerSize ≤ header.size
  fits : offset + header.size ≤ bytes.length
  revision : list.revision = header.revision
  count : list.count = header.count
  entries : stops.map Stop.entry = list.entries
  walk : Walk header.revision (offset + headerSize) stops
  found : ∀ stop ∈ stops, stop.IsFound bytes (offset + header.size)

theorem Header.size_le {bytes : List UInt8} {header : Header}
    (h : Header.decode? bytes = some header) : header.size ≤ maxSize := by
  match bytes, h with
  | revision :: _ :: rest, h =>
      obtain ⟨⟨size, rest₁⟩, hsize, h⟩ := Option.bind_eq_some_iff.mp h
      obtain ⟨⟨count, rest₂⟩, -, h⟩ := Option.bind_eq_some_iff.mp h
      obtain ⟨⟨reserved, rest₃⟩, -, h⟩ := Option.bind_eq_some_iff.mp h
      cases h
      exact Nat.le_of_lt_succ (Octets.word?_eq_some_iff.mp hsize).1

/-- The reader of a list looks at its header, at whether the declared size is there, and at the
bytes behind the header. -/
theorem decode_eq {bytes : List UInt8} {header : Header}
    (hheader : Header.decode? bytes = some header) :
    decode bytes
      = if bytes.length < header.size then .error (.list .beyondBuffer 2)
        else if header.size < headerSize then .error (.list .shorterThanHeader 2)
        else (decodeEntries header.revision header.count headerSize headerSize
          ((bytes.take header.size).drop headerSize)).map (⟨header.revision, ·⟩) := by
  rw [decode, hheader]
  dsimp only
  by_cases hfits : bytes.length < header.size
  · rw [Octets.split?_eq_none_iff.mpr hfits, if_pos hfits]
  · have hcut : Octets.split? header.size bytes
        = some (bytes.take header.size, bytes.drop header.size) :=
      Octets.split?_eq_some_iff.mpr ⟨(List.take_append_drop ..).symm,
        List.length_take_of_le (Nat.le_of_not_lt hfits)⟩
    rw [hcut, if_neg hfits]
    dsimp only
    split
    · rfl
    · cases decodeEntries header.revision header.count headerSize headerSize
        ((bytes.take header.size).drop headerSize) <;> rfl

/-- The entries of a list that starts at an offset are read in view of all bytes up to its end. -/
theorem drop_take_drop (bytes : List UInt8) (offset size : Nat) :
    ((bytes.drop offset).take size).drop headerSize
      = (bytes.take (offset + size)).drop (offset + headerSize) := by
  have hview : (bytes.take (offset + size)).drop offset = (bytes.drop offset).take size := by
    rw [List.drop_take, Nat.add_sub_cancel_left]
  rw [← List.drop_drop, hview]

/-- **A list is read exactly along a walk** that stays in its size. -/
theorem decodeAt_eq_ok_iff {bytes : List UInt8} {offset : Nat} {list : AccessList} :
    decodeAt bytes offset = .ok list ↔ ∃ header stops, IsRead bytes offset header stops list := by
  rw [decodeAt, Decoder.startingAt_eq_ok_iff]
  constructor
  · intro h
    cases hheader : Header.decode? (bytes.drop offset) with
    | none =>
        rw [decode, hheader] at h
        cases h
    | some header =>
        have hmax := Header.size_le hheader
        rw [decode_eq hheader] at h
        split at h
        · cases h
        rename_i hfits
        split at h
        · cases h
        rename_i hheaded
        obtain ⟨entries, hentries, rfl⟩ := Outcome.map_eq_ok_iff.mp h
        have hlimit : offset + header.size ≤ bytes.length := by
          rw [List.length_drop] at hfits
          rw [headerSize] at hheaded
          omega
        have hview := List.length_take_of_le hlimit
        rw [drop_take_drop, decodeEntries_eq_ok_iff (by omega), hview] at hentries
        obtain ⟨stops, hcount, rfl, hwalk, hfound⟩ := hentries
        exact ⟨header, stops, hheader, Nat.le_of_not_lt hheaded, hlimit, rfl,
          (List.length_map ..).trans hcount, rfl, hwalk,
          fun stop hmem => (Stop.isFound_take_iff hlimit).mp (hfound stop hmem)⟩
  · rintro ⟨header, stops, hread⟩
    have hmax := Header.size_le hread.declares
    have hlimit := hread.fits
    have hview := List.length_take_of_le hlimit
    have hentries : decodeEntries header.revision header.count headerSize headerSize
        ((bytes.take (offset + header.size)).drop (offset + headerSize)) = .ok list.entries := by
      have hcount : stops.length = header.count := by
        rw [← hread.count, count, ← hread.entries, List.length_map]
      rw [decodeEntries_eq_ok_iff (by omega), hview]
      exact ⟨stops, hcount, hread.entries, hread.walk,
        fun stop hmem => (Stop.isFound_take_iff hlimit).mpr (hread.found stop hmem)⟩
    have hfits : ¬(bytes.drop offset).length < header.size := by
      rw [List.length_drop]
      omega
    rw [decode_eq hread.declares, if_neg hfits, if_neg (Nat.not_lt.mpr hread.headed),
      drop_take_drop, hentries, ← hread.revision]
    rfl

theorem decodeAt_ne_tooLong (bytes : List UInt8) (offset place : Nat) :
    decodeAt bytes offset ≠ .error (.list .tooLong place) := by
  intro h
  obtain ⟨e, he, hshift⟩ := Outcome.mapError_eq_error_iff.mp h
  have hlocal : ∃ n, e = .list .tooLong n := by
    cases e <;> simp only [Error.shift, Error.list.injEq, reduceCtorEq] at hshift
    exact ⟨_, by rw [hshift.1]⟩
  obtain ⟨n, rfl⟩ := hlocal
  cases hheader : Header.decode? (bytes.drop offset) with
  | none =>
      rw [decode, hheader] at he
      cases he
  | some header =>
      have hmax := Header.size_le hheader
      rw [decode_eq hheader] at he
      split at he
      · cases he
      rename_i hfits
      split at he
      · cases he
      rename_i hheaded
      have hview : (bytes.take (offset + header.size)).length = offset + header.size := by
        rw [List.length_drop] at hfits
        rw [headerSize] at hheaded
        exact List.length_take_of_le (by omega)
      rw [drop_take_drop] at he
      cases hentries : decodeEntries header.revision header.count headerSize headerSize
          ((bytes.take (offset + header.size)).drop (offset + headerSize)) with
      | ok entries =>
          rw [hentries] at he
          cases he
      | error e =>
          rw [hentries] at he
          cases he
          exact decodeEntries_ne_tooLong (by omega) n hentries

/-! ### What has no influence -/

/-- **The positions that decide what is read**: the revision, the size and the count in the header,
and the entries at their true sizes. -/
def Matters (offset : Nat) (stops : List Stop) (i : Nat) : Prop :=
  i = offset ∨ (offset + 2 ≤ i ∧ i < offset + 6) ∨
    ∃ stop ∈ stops, stop.cursor ≤ i ∧ i < stop.cursor + stop.entry.size

/-- Three bytes of the header are not looked at. -/
theorem Header.decode?_congr {bytes other : List UInt8}
    (hlength : headerSize ≤ bytes.length ↔ headerSize ≤ other.length)
    (hsame : ∀ i, i = 0 ∨ (2 ≤ i ∧ i < 6) → other[i]? = bytes[i]?) :
    Header.decode? other = Header.decode? bytes := by
  by_cases hlong : headerSize ≤ bytes.length
  · match bytes, other, hlong, hlength.mp hlong with
    | _ :: _ :: _ :: _ :: _ :: _ :: _ :: _ :: _, _ :: _ :: _ :: _ :: _ :: _ :: _ :: _ :: _, _, _ =>
        cases hsame 0 (.inl rfl)
        cases hsame 2 (.inr (by decide))
        cases hsame 3 (.inr (by decide))
        cases hsame 4 (.inr (by decide))
        cases hsame 5 (.inr (by decide))
        rfl
  · rw [Header.decode?_eq_none (Nat.lt_of_not_le hlong),
      Header.decode?_eq_none (Nat.lt_of_not_le fun hother => hlong (hlength.mpr hother))]

namespace IsRead

variable {bytes other : List UInt8} {offset : Nat} {header : Header} {stops : List Stop}
  {list : AccessList}

/-- A list is read from any bytes that agree where it matters. -/
theorem congr (h : IsRead bytes offset header stops list)
    (hlength : offset + header.size ≤ other.length)
    (hsame : ∀ i, Matters offset stops i → other[i]? = bytes[i]?) :
    IsRead other offset header stops list := by
  have hheaded := h.headed
  have hfits := h.fits
  have hdeclares : Header.decode? (other.drop offset) = Header.decode? (bytes.drop offset) := by
    refine Header.decode?_congr ?_ fun i hi => ?_
    · rw [List.length_drop, List.length_drop]
      omega
    · rw [List.getElem?_drop, List.getElem?_drop]
      refine hsame (offset + i) ?_
      rcases hi with rfl | ⟨hlow, hhigh⟩
      · exact .inl rfl
      · exact .inr (.inl ⟨by omega, by omega⟩)
  exact { h with
    declares := hdeclares.trans h.declares
    fits := hlength
    found := fun stop hmem => (h.found stop hmem).congr hlength fun i hlow hhigh =>
      hsame i (.inr (.inr ⟨stop, hmem, hlow, hhigh⟩)) }

/-- What is read is not greater than the header says. -/
theorem size_le (h : IsRead bytes offset header stops list) : list.size ≤ header.size := by
  have hfit := h.walk.add_entriesSize_le (Nat.add_le_add_left h.headed offset)
    (fun stop hmem => (h.found stop hmem).size_le) (fun stop hmem => (h.found stop hmem).within)
  rw [h.entries] at hfit
  rw [size]
  omega

end IsRead

/-- The three bytes of the header that are not looked at have no influence, whatever is read. -/
theorem decodeAt_congr {bytes other : List UInt8} {offset : Nat}
    (hlength : other.length = bytes.length)
    (hsame : ∀ i, offset ≤ i → i ≠ offset + 1 → i ≠ offset + 6 → i ≠ offset + 7 →
      other[i]? = bytes[i]?) :
    decodeAt other offset = decodeAt bytes offset := by
  have hheader : Header.decode? (other.drop offset) = Header.decode? (bytes.drop offset) := by
    refine Header.decode?_congr (by rw [List.length_drop, List.length_drop, hlength]) ?_
    intro i hi
    rw [List.getElem?_drop, List.getElem?_drop]
    exact hsame (offset + i) (by omega) (by omega) (by omega) (by omega)
  have hdecode : decode (other.drop offset) = decode (bytes.drop offset) := by
    cases hread : Header.decode? (bytes.drop offset) with
    | none =>
        rw [hread] at hheader
        rw [decode, decode, hheader, hread]
    | some header =>
        rw [hread] at hheader
        have hbody : ((other.drop offset).take header.size).drop headerSize
            = ((bytes.drop offset).take header.size).drop headerSize := by
          rw [List.drop_take, List.drop_take, List.drop_drop, List.drop_drop]
          refine Octets.take_drop_congr fun i hi _ => ?_
          rw [headerSize] at hi
          exact hsame i (by omega) (by omega) (by omega) (by omega)
        rw [decode_eq hheader, decode_eq hread, hbody, List.length_drop, List.length_drop, hlength]
  rw [decodeAt, decodeAt, Decoder.startingAt, Decoder.startingAt, hdecode]

/-- **Reading a list is sound.**  A list is read along a walk through the bytes, with the revision
and the number of entries that its header declares; the walk advances by four bytes or more for each
entry, and leads over disjoint entries that fit in the declared size.  What does not matter for the
walk has no influence on what is read.  No list is refused for being too long, and three bytes of the
header have no influence on anything. -/
theorem decodeAt_sound :
    (∀ (bytes : List UInt8) (offset : Nat) (list : AccessList), decodeAt bytes offset = .ok list →
      ∃ header stops, IsRead bytes offset header stops list ∧
        (stops.Pairwise fun a b => a.cursor + a.entry.size ≤ b.cursor) ∧
        (∀ stop ∈ stops, 4 ≤ stride header.revision stop.declared stop.entry.size) ∧
        list.size ≤ header.size ∧ header.size ≤ 65535 ∧
        ∀ other : List UInt8, offset + header.size ≤ other.length →
          (∀ i, Matters offset stops i → other[i]? = bytes[i]?) →
          decodeAt other offset = .ok list) ∧
    (∀ (bytes : List UInt8) (offset place : Nat),
      decodeAt bytes offset ≠ .error (.list .tooLong place)) ∧
    ∀ (bytes other : List UInt8) (offset : Nat), other.length = bytes.length →
      (∀ i, offset ≤ i → i ≠ offset + 1 → i ≠ offset + 6 → i ≠ offset + 7 →
        other[i]? = bytes[i]?) →
      decodeAt other offset = decodeAt bytes offset := by
  refine ⟨?_, decodeAt_ne_tooLong, fun bytes other offset => decodeAt_congr⟩
  intro bytes offset list h
  obtain ⟨header, stops, hread⟩ := decodeAt_eq_ok_iff.mp h
  have hsize : ∀ stop ∈ stops, stop.entry.size ≤ stop.declared :=
    fun stop hmem => (hread.found stop hmem).size_le
  refine ⟨header, stops, hread, hread.walk.pairwise hsize, ?_, hread.size_le,
    Header.size_le hread.declares, ?_⟩
  · intro stop hmem
    exact Nat.le_trans stop.entry.headerSize_le_size (le_stride header.revision (hsize stop hmem))
  · intro other hlength hsame
    exact decodeAt_eq_ok_iff.mpr ⟨header, stops, hread.congr hlength hsame⟩

/-- A directory service list of 68 bytes behind a stray byte: its entry has 24 bytes and declares
56, and four more bytes are left over.  Three bytes of the header are open. -/
def looseBytes (second seventh eighth : UInt8) : List UInt8 :=
  [9, 4, second, 68, 0, 1, 0, seventh, eighth, 5, 0, 56, 0, 1, 0, 0, 0, 0, 0, 0, 0] ++
    Descriptor.everyone.encode ++ List.replicate 32 7 ++ [6, 6, 6, 6]

/-- The object entry in it. -/
def looseEntry : Entry :=
  ⟨.none, .object ⟨.allow, false, 1, Descriptor.everyone, []⟩ ⟨none, none, 0⟩⟩

theorem decodeAt_sound_loose :
    (∃ header stops, IsRead (looseBytes 0xAA 0xBB 0xCC) 1 header stops ⟨4, [looseEntry]⟩ ∧
      size ⟨4, [looseEntry]⟩ ≤ header.size) ∧
      decodeAt (looseBytes 0 0 0) 1 = .ok ⟨4, [looseEntry]⟩ := by
  have hread : decodeAt (looseBytes 0xAA 0xBB 0xCC) 1 = .ok ⟨4, [looseEntry]⟩ := by decide
  obtain ⟨header, stops, hwalk, -, -, hsize, -, -⟩ := decodeAt_sound.1 _ 1 _ hread
  refine ⟨⟨header, stops, hwalk, hsize⟩, ?_⟩
  rw [← hread]
  refine decodeAt_sound.2.2 _ _ 1 rfl fun i _ hsecond hseventh heighth => ?_
  match i with
  | 2 => exact absurd rfl hsecond
  | 7 => exact absurd rfl hseventh
  | 8 => exact absurd rfl heighth
  | 0 | 1 | 3 | 4 | 5 | 6 => rfl
  | _ + 9 => rfl

end AccessList

end SecurityDescriptor
