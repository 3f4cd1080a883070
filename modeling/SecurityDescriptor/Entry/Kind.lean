/-
Kinds of access control entries and their codes.

The code of an entry says which layout follows the header.  Sixteen kinds combine a qualifier with
two properties: whether the application decides in a callback, and whether the entry can be limited
to an object type.  The remaining kind is the compound entry.  Codes above the last defined one
belong to custom entries, which have no kind.

Main definitions:

* `Qualifier`, `Kind` — what an entry does, and the defined kinds;
* `Kind.code`, `Kind.ofCode?` — the code of a kind and the kind of a code;
* `Kind.tokens` — the tokens of the kinds that can be written as text.

Main results:

* `Kind.ofCode?_code`, `Kind.code_of_ofCode?` — **kinds and defined codes are the same thing**;
* `Kind.ofCode?_eq_none_iff` — the codes without a kind are those above `Kind.lastCode`.
-/

import SecurityDescriptor.Text.Token

set_option relaxedAutoImplicit false
set_option autoImplicit false

namespace SecurityDescriptor

/-- What an entry does to an access. -/
inductive Qualifier
  | allow
  | deny
  | audit
  | alarm
  deriving DecidableEq, Repr

/-- A defined kind of entry. -/
inductive Kind
  /-- An entry that names a principal to be impersonated. -/
  | compound
  /-- An entry with a qualifier, possibly of callback form, possibly limited to object types. -/
  | standard (qualifier : Qualifier) (callback object : Bool)
  deriving DecidableEq, Repr

namespace Kind

/-- The qualifier of a kind; a compound entry allows. -/
def qualifier : Kind → Qualifier
  | compound => .allow
  | standard qualifier _ _ => qualifier

/-- Whether an application decides in a callback. -/
def callback : Kind → Bool
  | compound => false
  | standard _ callback _ => callback

/-- Whether the entry can be limited to object types. -/
def object : Kind → Bool
  | compound => false
  | standard _ _ object => object

/-! ### Codes -/

/-- The kinds in the order of their codes. -/
def all : List Kind :=
  [ standard .allow false false,
    standard .deny false false,
    standard .audit false false,
    standard .alarm false false,
    compound,
    standard .allow false true,
    standard .deny false true,
    standard .audit false true,
    standard .alarm false true,
    standard .allow true false,
    standard .deny true false,
    standard .allow true true,
    standard .deny true true,
    standard .audit true false,
    standard .alarm true false,
    standard .audit true true,
    standard .alarm true true ]

/-- The greatest code that has a kind. -/
def lastCode : UInt8 := 0x10

/-- The code of a kind. -/
def code : Kind → UInt8
  | standard .allow false false => 0x00
  | standard .deny false false => 0x01
  | standard .audit false false => 0x02
  | standard .alarm false false => 0x03
  | compound => 0x04
  | standard .allow false true => 0x05
  | standard .deny false true => 0x06
  | standard .audit false true => 0x07
  | standard .alarm false true => 0x08
  | standard .allow true false => 0x09
  | standard .deny true false => 0x0A
  | standard .allow true true => 0x0B
  | standard .deny true true => 0x0C
  | standard .audit true false => 0x0D
  | standard .alarm true false => 0x0E
  | standard .audit true true => 0x0F
  | standard .alarm true true => 0x10

/-- The kind of a code. -/
def ofCode? (code : UInt8) : Option Kind := all[code.toNat]?

@[simp] theorem ofCode?_code (kind : Kind) : ofCode? kind.code = some kind := by
  rcases kind with _ | ⟨q, c, o⟩
  · rfl
  · cases q <;> cases c <;> cases o <;> rfl

theorem code_get_all : ∀ i : Fin all.length, (all.get i).code.toNat = i.val := by decide

/-- **Kinds and defined codes are the same thing.** -/
theorem code_of_ofCode? {code : UInt8} {kind : Kind} (h : ofCode? code = some kind) :
    kind.code = code := by
  obtain ⟨hi, rfl⟩ := List.getElem?_eq_some_iff.mp h
  exact UInt8.toNat_inj.mp (code_get_all ⟨code.toNat, hi⟩)

theorem ofCode?_eq_none_iff {code : UInt8} : ofCode? code = none ↔ lastCode < code := by
  rw [ofCode?, List.getElem?_eq_none_iff, UInt8.lt_iff_toNat_lt]
  exact Iff.rfl

/-! ### Tokens -/

/-- The kinds that have a token, in the order of the format's own listing. -/
def tokens : Token.Table Kind :=
  [ ("A", standard .allow false false),
    ("D", standard .deny false false),
    ("OA", standard .allow false true),
    ("OD", standard .deny false true),
    ("AU", standard .audit false false),
    ("AL", standard .alarm false false),
    ("OU", standard .audit false true),
    ("OL", standard .alarm false true),
    ("XA", standard .allow true false),
    ("XD", standard .deny true false),
    ("ZA", standard .allow true true),
    ("XU", standard .audit true false) ]

/-- The kind whose token is exactly `text`. -/
def ofToken? (text : List Char) : Option Kind := Token.valueOf? tokens text

/-- The token of a kind. -/
def token? (kind : Kind) : Option String := Token.tokenOf? tokens kind

end Kind

end SecurityDescriptor
