/-
**What the text of an entry keeps.**

Six fields are written with semicolons between them, and none of them contains a semicolon, so the
reader cuts the text into the fields that were written.  Each field is read back, but not every part
of an entry has a field: extra bytes, the flag bit without a name and the bits without a meaning in
the flag word of an object entry are not written, and an all-zero GUID is read as no GUID.  What is
left over is the textual form of the entry.  Whatever the reader returns is its own textual form, so
writing and reading a second time changes nothing.

Main definitions:

* `Flags.textual`, `Body.textual`, `Entry.textual` — what is left of an entry in its text.

Main results:

* `Entry.parse_render` — **the text of an entry is read as the textual form of the entry**;
* `Entry.textual_of_parse` — **what was read is its own textual form**;
* `Entry.exists_parts_of_parse` — what was read was put together from parts;
* `Entry.text_of_render` — what is written is not empty and has no parentheses.
-/

import SecurityDescriptor.Entry.Text
import SecurityDescriptor.Proofs.Sid.Text
import SecurityDescriptor.Proofs.Text.Guid
import SecurityDescriptor.Proofs.Text.Token

set_option relaxedAutoImplicit false
set_option autoImplicit false

namespace SecurityDescriptor

/-! ### Flags -/

namespace Flags

/-- The position of the flag bit that has no name. -/
def unnamedBit : Nat := 5

/-- What text keeps of the flags: the bit without a name has no token. -/
def textual (flags : Flags) : Flags := ⟨Bits.put flags.bits unnamedBit false⟩

theorem separable_tokens : Token.Separable tokens := by decide

theorem isWord_tokens : ∀ row ∈ tokens, Text.IsWord row.1.toList := by decide

/-- A bit has a name, or it is the one that has none. -/
theorem exists_bit_eq {i : Nat} (hi : i < 8) : i = unnamedBit ∨ ∃ flag : Flag, flag.bit = i := by
  match i, hi with
  | 0, _ => exact .inr ⟨.objectInherit, rfl⟩
  | 1, _ => exact .inr ⟨.containerInherit, rfl⟩
  | 2, _ => exact .inr ⟨.noPropagate, rfl⟩
  | 3, _ => exact .inr ⟨.inheritOnly, rfl⟩
  | 4, _ => exact .inr ⟨.inherited, rfl⟩
  | 5, _ => exact .inl rfl
  | 6, _ => exact .inr ⟨.auditSuccess, rfl⟩
  | 7, _ => exact .inr ⟨.auditFailure, rfl⟩
  | n + 8, h => exact absurd h (by omega)

theorem bit_ne_unnamedBit (flag : Flag) : flag.bit ≠ unnamedBit := by cases flag <;> decide

/-- **Flags are their named flags and the bit without a name.** -/
theorem ext_has {a b : Flags} (hnamed : ∀ flag, a.has flag = b.has flag)
    (hunnamed : a.bits.getLsbD unnamedBit = b.bits.getLsbD unnamedBit) : a = b := by
  rcases a with ⟨a⟩
  rcases b with ⟨b⟩
  rw [mk.injEq]
  apply BitVec.eq_of_getLsbD_eq
  intro i hi
  rcases exists_bit_eq hi with rfl | ⟨flag, rfl⟩
  · exact hunnamed
  · exact hnamed flag

/-- Setting flags one after another sets these flags and no other bit. -/
theorem getLsbD_foldl_put (list : List Flag) (flags : Flags) (i : Nat) :
    (list.foldl (fun flags flag => flags.put flag true) flags).bits.getLsbD i
      = (flags.bits.getLsbD i || list.any fun flag => flag.bit == i) := by
  induction list generalizing flags with
  | nil => rw [List.foldl_nil, List.any_nil, Bool.or_false]
  | cons flag list ih =>
      rw [List.foldl_cons, ih, put, Bits.getLsbD_put _ flag.bit_lt, List.any_cons]
      by_cases hi : flag.bit = i
      · simp [hi]
      · have hne : (flag.bit == i) = false := beq_eq_false_iff_ne.2 hi
        rw [if_neg hi, hne, Bool.false_or]

theorem getLsbD_ofList (list : List Flag) (i : Nat) :
    (ofList list).bits.getLsbD i = list.any fun flag => flag.bit == i := by
  have hnone : none.bits.getLsbD i = false := by simp [none]
  rw [ofList, getLsbD_foldl_put, hnone, Bool.false_or]

theorem has_ofList (list : List Flag) (flag : Flag) :
    (ofList list).has flag = list.any fun other => other == flag := by
  rw [has, getLsbD_ofList]
  congr 1
  funext other
  rw [Bool.eq_iff_iff, beq_iff_eq, beq_iff_eq, Flag.bit_inj]

theorem getLsbD_ofList_unnamedBit (list : List Flag) :
    (ofList list).bits.getLsbD unnamedBit = false := by
  rw [getLsbD_ofList, List.any_eq_false]
  intro flag _ heq
  exact bit_ne_unnamedBit flag (eq_of_beq heq)

theorem has_textual (flags : Flags) (flag : Flag) : flags.textual.has flag = flags.has flag := by
  rw [has, has, textual, Bits.getLsbD_put _ (by decide), if_neg (bit_ne_unnamedBit flag).symm]

/-- The flags that are set, in the order in which they are written, are all that is kept. -/
theorem ofList_filter_has (flags : Flags) :
    ofList ((tokens.map Prod.snd).filter flags.has) = flags.textual := by
  have hnamed : ∀ flag, flag ∈ tokens.map Prod.snd := by
    intro flag
    cases flag <;> decide
  refine ext_has ?_ ?_
  · intro flag
    rw [has_ofList, has_textual, Bool.eq_iff_iff, List.any_eq_true]
    constructor
    · rintro ⟨other, hmem, heq⟩
      rw [← eq_of_beq heq]
      exact (List.mem_filter.1 hmem).2
    · intro hset
      exact ⟨flag, List.mem_filter.2 ⟨hnamed flag, hset⟩, beq_self_eq_true flag⟩
  · rw [getLsbD_ofList_unnamedBit, textual, Bits.getLsbD_put _ (by decide), if_pos rfl]

theorem run_render (flags : Flags) :
    Token.Run tokens flags.render ((tokens.map Prod.snd).filter flags.has) :=
  Token.run_flatMap_ite (fun _ h => h) flags.has

theorem isWord_render (flags : Flags) : Text.IsWord flags.render :=
  flags.run_render.forall_char isWord_tokens

/-- **The named flags are read back from their text.** -/
theorem parse?_render (flags : Flags) : parse? flags.render = some flags.textual := by
  rw [parse?, (Token.run?_eq_some_iff separable_tokens).2 flags.run_render, Option.map_some,
    ofList_filter_has]

theorem textual_of_parse? {text : List Char} {flags : Flags} (h : parse? text = some flags) :
    flags.textual = flags := by
  obtain ⟨list, -, rfl⟩ := Option.map_eq_some_iff.1 h
  have hunnamed := getLsbD_ofList_unnamedBit list
  rw [textual, ← hunnamed, Bits.put_getLsbD _ (by decide)]

end Flags

/-! ### Masks -/

namespace Mask

theorem isWord_render (mask : Mask) : Text.IsWord (render mask) := by
  intro c hc
  rcases List.mem_cons.1 hc with rfl | hc
  · decide
  · rcases List.mem_cons.1 hc with rfl | hc
    · decide
    · exact Numeral.isWord_hex mask.toNat c hc

theorem parseHex?_hex (mask : Mask) : parseHex? (Numeral.hex mask.toNat) = some mask := by
  have hle : mask.toNat ≤ UInt32.size - 1 := Nat.le_sub_one_of_lt mask.toNat_lt
  have hread := Numeral.read?_hex hle
  unfold parseHex?
  split
  · rename_i digits heq
    have hplus := Numeral.isWord_hex mask.toNat '+' (by rw [heq]; exact List.mem_cons_self ..)
    exact absurd hplus (by decide)
  · dsimp only
    rw [hread, Option.map_some, UInt32.ofNat_toNat]

/-- **A mask is read back from its text.** -/
theorem parse_render (mask : Mask) : parse (render mask) = .ok mask := by
  have hne : render mask ≠ [] := List.cons_ne_nil _ _
  have hdigits : hexDigits? (render mask) = some (Numeral.hex mask.toNat) := rfl
  rw [parse, if_neg hne, hdigits]
  dsimp only
  rw [parseHex?_hex]

end Mask

/-! ### Kinds -/

namespace Kind

theorem isWord_token {kind : Kind} {token : String} (h : kind.token? = some token) :
    Text.IsWord token.toList := by
  have hall : ∀ row ∈ tokens, Text.IsWord row.1.toList := by decide
  obtain ⟨row, hrow, rfl⟩ := Option.map_eq_some_iff.1 h
  exact hall row (List.mem_of_find?_eq_some hrow)

theorem token_ne_nil {kind : Kind} {token : String} (h : kind.token? = some token) :
    token.toList ≠ [] := by
  have hall : ∀ row ∈ tokens, row.1.toList ≠ [] := by decide
  obtain ⟨row, hrow, rfl⟩ := Option.map_eq_some_iff.1 h
  exact hall row (List.mem_of_find?_eq_some hrow)

/-- **A kind is read back from its token.** -/
theorem ofToken?_token {kind : Kind} {token : String} (h : kind.token? = some token) :
    ofToken? token.toList = some kind := by
  have hall : ∀ row ∈ tokens, ofToken? row.1.toList = some row.2 := by decide
  obtain ⟨row, hrow, rfl⟩ := Option.map_eq_some_iff.1 h
  have hkind := List.find?_some hrow
  rw [hall row (List.mem_of_find?_eq_some hrow), eq_of_beq hkind]

end Kind

/-! ### Entries -/

/-- What text keeps of an object type: the all-zero GUID means that there is none. -/
def Target.given (guid : Option Guid) : Option Guid := guid.filter fun g => !g.isNull

/-- What text keeps of a body: no extra bytes, no all-zero GUID, no flag bit without a meaning, and
a common body in place of an object body that is not limited to object types. -/
def Body.textual : Body → Body
  | common rule => common { rule with extra := [] }
  | object rule target =>
      let objectType := Target.given target.objectType
      let inheritedType := Target.given target.inheritedType
      if objectType = none ∧ inheritedType = none then common { rule with extra := [] }
      else object { rule with extra := [] } ⟨objectType, inheritedType, 0⟩
  | compound mask sid => compound mask sid
  | custom code extra => custom code extra

namespace Entry

/-- **What is left of an entry in its text.** -/
def textual (entry : Entry) : Entry := ⟨entry.flags.textual, entry.body.textual⟩

/-- What is left is no greater than what there was. -/
theorem size_textual_le (entry : Entry) : entry.textual.size ≤ entry.size := by
  rcases entry with ⟨flags, rule | ⟨rule, target⟩ | ⟨mask, sid⟩ | ⟨code, extra⟩⟩
  · simp only [size, textual, Body.textual, Body.size, List.length_nil]
    omega
  · have hkept : ∀ guid : Option Guid, (Target.given guid).toList.length ≤ guid.toList.length := by
      intro guid
      cases guid with
      | none => exact Nat.le_refl 0
      | some g => by_cases hnull : g.isNull = true <;> simp [Target.given, Option.filter, hnull]
    have hobject := hkept target.objectType
    have hinherited := hkept target.inheritedType
    simp only [size, textual, Body.textual]
    split
    · simp only [Body.size, List.length_nil]
      omega
    · simp only [Body.size, Target.guids, List.length_append, List.length_nil, Guid.size]
      omega
  · exact Nat.le_refl _
  · exact Nat.le_refl _

/-! ### Writing six fields and cutting them again -/

/-- Six fields with semicolons between them. -/
def joinFields (kind flags mask objectType inheritedType sid : List Char) : List Char :=
  kind ++ ';' :: (flags ++ ';' :: (mask ++ ';' :: (objectType ++ ';' :: (inheritedType ++
    ';' :: sid))))

theorem splitOn_joinFields {kind flags mask objectType inheritedType sid : List Char}
    (hkind : ';' ∉ kind) (hflags : ';' ∉ flags) (hmask : ';' ∉ mask) (hobject : ';' ∉ objectType)
    (hinherited : ';' ∉ inheritedType) (hsid : ';' ∉ sid) :
    (joinFields kind flags mask objectType inheritedType sid).splitOn ';'
      = [kind, flags, mask, objectType, inheritedType, sid] := by
  rw [joinFields, List.splitOn_append_cons_self_of_not_mem hkind,
    List.splitOn_append_cons_self_of_not_mem hflags, List.splitOn_append_cons_self_of_not_mem hmask,
    List.splitOn_append_cons_self_of_not_mem hobject,
    List.splitOn_append_cons_self_of_not_mem hinherited, List.splitOn_eq_singleton hsid]

theorem isPlain_renderGuid (guid : Option Guid) : Text.IsPlain (renderGuid guid) := by
  cases guid with
  | none => exact Text.isPlain_nil
  | some g => exact g.isPlain_render

/-- An object type is read back from its text, unless it is all zero. -/
theorem parseGuid_renderGuid (guid : Option Guid) :
    parseGuid (renderGuid guid) = .ok (Target.given guid) := by
  cases guid with
  | none => rfl
  | some g =>
      have htext : renderGuid (some g) = g.render := rfl
      rw [parseGuid, htext, if_neg g.render_ne_nil, Guid.parse_render, Outcome.ok_bind]
      by_cases hnull : g.isNull = true
      · rw [if_pos hnull, Target.given, Option.filter, hnull]
        rfl
      · rw [if_neg hnull, Target.given, Option.filter, Bool.eq_false_iff.2 hnull]
        rfl

theorem given_of_parseGuid {field : List Char} {guid : Option Guid}
    (h : parseGuid field = .ok guid) : Target.given guid = guid := by
  unfold parseGuid at h
  split at h
  · cases h
    rfl
  · obtain ⟨g, -, h₁⟩ := Outcome.bind_eq_ok_iff.1 h
    split at h₁
    · cases h₁
      rfl
    · rename_i hnull
      cases h₁
      rw [Target.given, Option.filter, Bool.eq_false_iff.2 hnull]
      rfl

/-! ### The parts of what was read -/

/-- The body that is made of a rule without extra bytes and object types. -/
def bodyOfParts (rule : Rule) (objectType inheritedType : Option Guid) : Body :=
  if objectType = none ∧ inheritedType = none then .common rule
  else .object rule ⟨objectType, inheritedType, 0⟩

/-- Without extra bytes nothing is refused. -/
theorem ofParts_eq_ok {rule : Rule} (hextra : rule.extra = []) (flags : Flags)
    (objectType inheritedType : Option Guid) :
    ofParts flags rule objectType inheritedType
      = .ok ⟨flags, bodyOfParts rule objectType inheritedType⟩ := by
  have hcheck : ∀ limit, checkExtra limit rule.extra = .ok () := by
    intro limit
    rw [hextra, checkExtra, List.length_nil, if_neg (Nat.not_lt_zero limit),
      if_neg (fun h => h rfl)]
  have hnone : (objectType.isNone && inheritedType.isNone) = true
      ↔ objectType = none ∧ inheritedType = none := by
    rw [Bool.and_eq_true, Option.isNone_iff_eq_none, Option.isNone_iff_eq_none]
  unfold ofParts bodyOfParts
  simp only [hnone]
  split
  · rw [ofCommon, hcheck, Outcome.ok_bind]
    rfl
  · rw [ofObject, hcheck, Outcome.ok_bind]
    rfl

theorem textual_bodyOfParts {rule : Rule} (hextra : rule.extra = [])
    {objectType inheritedType : Option Guid} (hobject : Target.given objectType = objectType)
    (hinherited : Target.given inheritedType = inheritedType) :
    (bodyOfParts rule objectType inheritedType).textual
      = bodyOfParts rule objectType inheritedType := by
  -- Dropping the extra bytes and the all-zero GUIDs changes nothing, so the same branch is taken.
  have hrule : { rule with extra := [] } = rule := by rw [← hextra]
  unfold bodyOfParts
  split
  · rw [Body.textual, hrule]
  · rename_i hlimited
    simp only [Body.textual, hobject, hinherited, if_neg hlimited, hrule]

/-- **What was read was put together from parts** that text keeps.  The first field is the token of a
kind with the qualifier and the callback of the entry. -/
theorem exists_parts_of_parse {text : List Char} {entry : Entry} (h : parse text = .ok entry) :
    ∃ flags rule objectType inheritedType,
      entry = ⟨flags, bodyOfParts rule objectType inheritedType⟩ ∧ flags.textual = flags ∧
      rule.extra = [] ∧ Target.given objectType = objectType ∧
      Target.given inheritedType = inheritedType ∧
      ∃ token object, (text.splitOn ';').head? = some token ∧
        Kind.ofToken? token = some (.standard rule.qualifier rule.callback object) := by
  unfold parse at h
  split at h
  · rename_i hfields
    unfold parseFields at h
    split at h
    · cases h
    · cases h
    · rename_i hkind
      split at h
      · cases h
      · rename_i flags hflags
        obtain ⟨mask, -, h₁⟩ := Outcome.bind_eq_ok_iff.1 h
        obtain ⟨objectType, hobject, h₂⟩ := Outcome.bind_eq_ok_iff.1 h₁
        obtain ⟨inheritedType, hinherited, h₃⟩ := Outcome.bind_eq_ok_iff.1 h₂
        obtain ⟨sid, -, h₄⟩ := Outcome.bind_eq_ok_iff.1 h₃
        rw [ofParts_eq_ok rfl] at h₄
        cases h₄
        exact ⟨flags, _, objectType, inheritedType, rfl, Flags.textual_of_parse? hflags, rfl,
          given_of_parseGuid hobject, given_of_parseGuid hinherited, _, _,
          congrArg List.head? hfields, hkind⟩
  · cases h

/-- **What was read is its own textual form.** -/
theorem textual_of_parse {text : List Char} {entry : Entry} (h : parse text = .ok entry) :
    entry.textual = entry := by
  obtain ⟨flags, rule, objectType, inheritedType, rfl, hflags, hextra, hobject, hinherited, -⟩ :=
    exists_parts_of_parse h
  rw [textual, hflags, textual_bodyOfParts hextra hobject hinherited]

/-! ### Reading what was written -/

/-- **What an entry with a text is written as**, and what is left of it. -/
theorem exists_fields_of_render {entry : Entry} {text : List Char} (h : entry.render = .ok text) :
    ∃ (rule : Rule) (objectType inheritedType : Option Guid) (token : String),
      (Kind.standard rule.qualifier rule.callback
        (objectType.isSome || inheritedType.isSome)).token? = some token ∧
      text = joinFields token.toList entry.flags.render (Mask.render rule.mask)
        (renderGuid objectType) (renderGuid inheritedType) rule.sid.render ∧
      entry.textual = ⟨entry.flags.textual, bodyOfParts { rule with extra := [] }
        (Target.given objectType) (Target.given inheritedType)⟩ := by
  -- Common and object entries are written by the same function; the others have no text.
  have hfields : ∀ {rule : Rule} {objectType inheritedType : Option Guid},
      renderFields entry.flags rule objectType inheritedType = .ok text →
      ∃ token : String, (Kind.standard rule.qualifier rule.callback
        (objectType.isSome || inheritedType.isSome)).token? = some token ∧
      text = joinFields token.toList entry.flags.render (Mask.render rule.mask)
        (renderGuid objectType) (renderGuid inheritedType) rule.sid.render := by
    intro rule objectType inheritedType hfields
    unfold renderFields at hfields
    dsimp only at hfields
    split at hfields
    · cases hfields
    · rename_i token htoken
      cases hfields
      exact ⟨token, htoken, rfl⟩
  obtain ⟨flags, rule | ⟨rule, target⟩ | ⟨mask, sid⟩ | ⟨code, extra⟩⟩ := entry
  · obtain ⟨token, htoken, htext⟩ := hfields h
    exact ⟨rule, none, none, token, htoken, htext, rfl⟩
  · obtain ⟨token, htoken, htext⟩ := hfields h
    exact ⟨rule, target.objectType, target.inheritedType, token, htoken, htext, rfl⟩
  · cases h
  · cases h

/-- **The text of an entry is read as its textual form.** -/
theorem parse_render {entry : Entry} {text : List Char} (h : entry.render = .ok text) :
    parse text = .ok entry.textual := by
  obtain ⟨rule, objectType, inheritedType, token, htoken, rfl, htextual⟩ :=
    exists_fields_of_render h
  rw [parse, splitOn_joinFields ((Kind.isWord_token htoken).not_mem (by decide))
    (entry.flags.isWord_render.not_mem (by decide))
    ((Mask.isWord_render rule.mask).not_mem (by decide))
    ((isPlain_renderGuid objectType).not_mem (by decide))
    ((isPlain_renderGuid inheritedType).not_mem (by decide))
    (rule.sid.isPlain_render.not_mem (by decide))]
  dsimp only
  rw [parseFields, Kind.ofToken?_token htoken]
  dsimp only
  rw [Flags.parse?_render]
  dsimp only
  rw [Mask.parse_render, Outcome.ok_bind, parseGuid_renderGuid, Outcome.ok_bind,
    parseGuid_renderGuid, Outcome.ok_bind, Sid.parse_render, Outcome.ok_bind, ofParts_eq_ok rfl,
    htextual]

/-- The characters of what is written: letters, digits, hyphens and semicolons. -/
def IsEntryText (text : List Char) : Prop :=
  ∀ c ∈ text, (c.isAlphanum = true ∨ c = '-') ∨ c = ';'

theorem isEntryText_of_render {entry : Entry} {text : List Char} (h : entry.render = .ok text) :
    IsEntryText text := by
  obtain ⟨rule, objectType, inheritedType, token, htoken, rfl, -⟩ := exists_fields_of_render h
  have hkind := (Kind.isWord_token htoken).isPlain
  have hflags := entry.flags.isWord_render.isPlain
  have hmask := (Mask.isWord_render rule.mask).isPlain
  have hobject := isPlain_renderGuid objectType
  have hinherited := isPlain_renderGuid inheritedType
  have hsid := rule.sid.isPlain_render
  intro c hc
  simp only [joinFields, List.mem_append, List.mem_cons] at hc
  -- Six plain fields and five semicolons in turn.
  rcases hc with hc | rfl | hc | rfl | hc | rfl | hc | rfl | hc | rfl | hc
  · exact .inl (hkind c hc)
  · exact .inr rfl
  · exact .inl (hflags c hc)
  · exact .inr rfl
  · exact .inl (hmask c hc)
  · exact .inr rfl
  · exact .inl (hobject c hc)
  · exact .inr rfl
  · exact .inl (hinherited c hc)
  · exact .inr rfl
  · exact .inl (hsid c hc)

/-- What is written for an entry is not empty and has no parentheses. -/
theorem text_of_render {entry : Entry} {text : List Char} (h : entry.render = .ok text) :
    text ≠ [] ∧ '(' ∉ text ∧ ')' ∉ text := by
  have hchars := isEntryText_of_render h
  obtain ⟨rule, objectType, inheritedType, token, htoken, htext, -⟩ := exists_fields_of_render h
  refine ⟨?_, ?_, ?_⟩
  · rw [htext]
    exact List.append_ne_nil_of_left_ne_nil (Kind.token_ne_nil htoken) _
  · intro hmem
    exact absurd (hchars _ hmem) (by decide)
  · intro hmem
    exact absurd (hchars _ hmem) (by decide)

end Entry

end SecurityDescriptor
