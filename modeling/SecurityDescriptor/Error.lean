/-
Errors: what can go wrong, and the words for it.

An error is a cause, never a text.  Damage to an identifier, an entry, a list or a descriptor
carries the byte offset at which it was noticed; the other errors carry the numbers that explain
them.  The wording is added at the very end, by `Error.message`.

Main definitions:

* `IdentifierFault`, `EntryFault`, `ListFault`, `DescriptorFault` — what is damaged, layer by layer;
* `Quantity` — what exceeds a limit;
* `UnsupportedForm`, `Unavailable` — input that is understood but refused, operations without an
  answer;
* `Error`, `Error.kind`, `Error.isMalformed`, `Error.message`;
* `Error.shift` — the same error seen from a point further to the left.

Main results:

* `Error.shift_shift`, `Error.shift_zero` — shifts add up;
* `Error.kind_shift` — a shift moves an error and does not change its kind.
-/

set_option relaxedAutoImplicit false
set_option autoImplicit false

namespace SecurityDescriptor

/-! ### Causes -/

/-- What is wrong with a security identifier. -/
inductive IdentifierFault
  | shortHeader
  | revision
  | tooManySubAuthorities
  | truncatedSubAuthorities
  | missingLead
  | missingComponent
  | authorityNotNumber
  | authorityTooLarge
  | subAuthorityNotNumber
  | notAccountDomain
  deriving DecidableEq, Repr

/-- What is wrong with an access control entry or with a GUID in one. -/
inductive EntryFault
  | shortHeader
  | beyondBuffer
  | misaligned
  | customShorterThanHeader
  | maskMissing
  | compoundMaskMissing
  | compoundFormMissing
  | compoundFormUnknown
  | compoundSizeMismatch
  | objectMaskMissing
  | objectFlagsMissing
  | guidTruncated
  | objectSizeMismatch
  | extraTooLong
  | fieldCount
  | unknownKind
  | unknownFlag
  | maskNotHex
  | maskUnrecognised
  | guidShape
  | guidDigit
  deriving DecidableEq, Repr

/-- What is wrong with an access control list. -/
inductive ListFault
  | shortHeader
  | beyondBuffer
  | shorterThanHeader
  | entryHeaderBeyondEnd
  | entryBeyondEnd
  | entryMisaligned
  | tooLong
  | emptyBody
  | entryNotOpened
  | entryNotClosed
  | entryEmptyOrNested
  deriving DecidableEq, Repr

/-- What is wrong with a security descriptor as a whole. -/
inductive DescriptorFault
  | shortHeader
  | revision
  | slotMissing
  | slotOverflow
  | unbalanced
  | markWithoutLetter
  | noLeadingMark
  | sectionsOverlap
  | unknownMark
  | repeatedSection
  | emptyPrincipal
  | unknownListMark
  | nullListWithEntries
  | listMissing
  deriving DecidableEq, Repr

/-- What exceeds a limit of the format. -/
inductive Quantity
  | authority
  | subAuthorityCount
  | extraLength
  | extraAlignment
  | customCode
  | listLength
  | entryIndex
  deriving DecidableEq, Repr

/-- Input that is recognised and refused. -/
inductive UnsupportedForm
  /-- An abbreviation that stands for an identifier only within some domain. -/
  | domainAbbreviation
  /-- A descriptor whose components are not stored relative to itself. -/
  | absoluteDescriptor
  deriving DecidableEq, Repr

/-- A question that has no answer for the given code. -/
inductive Unavailable
  | domainMissing
  | logonSession
  | compoundText
  | bodyWithoutText
  | kindWithoutToken
  deriving DecidableEq, Repr

/-! ### Errors -/

/-- Everything that this library can report. -/
inductive Error
  | identifier (fault : IdentifierFault) (offset : Nat)
  | entry (fault : EntryFault) (offset : Nat)
  | list (fault : ListFault) (offset : Nat)
  | descriptor (fault : DescriptorFault) (offset : Nat)
  | outOfRange (quantity : Quantity) (value limit : Nat)
  | unsupportedForm (form : UnsupportedForm) (token : String)
  | unavailable (question : Unavailable) (code : UInt8)
  | bufferTooSmall (required available : Nat)
  deriving DecidableEq, Repr

namespace Error

/-- The classes of errors that a caller tells apart. -/
inductive Kind
  | malformedIdentifier
  | malformedEntry
  | malformedList
  | malformedDescriptor
  | outOfRange
  | unsupportedForm
  | notSupported
  | bufferTooSmall
  deriving DecidableEq, Repr

/-- The class of an error. -/
def kind : Error → Kind
  | identifier .. => .malformedIdentifier
  | entry .. => .malformedEntry
  | list .. => .malformedList
  | descriptor .. => .malformedDescriptor
  | outOfRange .. => .outOfRange
  | unsupportedForm .. => .unsupportedForm
  | unavailable .. => .notSupported
  | bufferTooSmall .. => .bufferTooSmall

/-- Whether a class means damaged input. -/
def Kind.isMalformed : Kind → Bool
  | .malformedIdentifier | .malformedEntry | .malformedList | .malformedDescriptor => true
  | _ => false

/-- Whether the error means damaged input. -/
def isMalformed (e : Error) : Bool := e.kind.isMalformed

/-- The offset at which damage was noticed. -/
def offset? : Error → Option Nat
  | identifier _ offset | entry _ offset | list _ offset | descriptor _ offset => some offset
  | _ => none

/-- The error as it is seen `n` bytes further to the left: its offset, if it has one, grows
by `n`. -/
def shift (n : Nat) : Error → Error
  | identifier fault offset => identifier fault (n + offset)
  | entry fault offset => entry fault (n + offset)
  | list fault offset => list fault (n + offset)
  | descriptor fault offset => descriptor fault (n + offset)
  | e => e

@[simp] theorem shift_zero (e : Error) : shift 0 e = e := by
  cases e <;> simp [shift]

theorem shift_shift (m n : Nat) (e : Error) : shift m (shift n e) = shift (m + n) e := by
  cases e <;> simp [shift, Nat.add_assoc]

/-- **A shift moves an error and does not change its kind.** -/
@[simp] theorem kind_shift (n : Nat) (e : Error) : (shift n e).kind = e.kind := by
  cases e <;> rfl

theorem offset?_shift (n : Nat) (e : Error) : (shift n e).offset? = e.offset?.map (n + ·) := by
  cases e <;> rfl

end Error

/-! ### Wording -/

/-- The words for damage to an identifier. -/
def IdentifierFault.reason : IdentifierFault → String
  | shortHeader => "剩余字节不足以容纳 SID 头部"
  | revision => "SID 修订号必须为 1"
  | tooManySubAuthorities => "子颁发机构数量超过 15"
  | truncatedSubAuthorities => "子颁发机构被截断"
  | missingLead => "缺少 `S-` 前缀"
  | missingComponent => "SID 文本分段不足"
  | authorityNotNumber => "颁发机构不是整数"
  | authorityTooLarge => "颁发机构超过 6 字节"
  | subAuthorityNotNumber => "子颁发机构不是 32 位十进制整数"
  | notAccountDomain => "域标识符必须形如 S-1-5-21-…"

/-- The words for damage to an entry. -/
def EntryFault.reason : EntryFault → String
  | shortHeader => "剩余字节不足以容纳条目头部"
  | beyondBuffer => "条目声明长度越过缓冲"
  | misaligned => "条目长度不是 4 的倍数"
  | customShorterThanHeader => "自定义条目声明长度小于头部"
  | maskMissing => "条目过短，缺少访问掩码"
  | compoundMaskMissing => "复合条目过短，缺少访问掩码"
  | compoundFormMissing => "复合条目过短，缺少复合种类"
  | compoundFormUnknown => "未知的复合条目种类"
  | compoundSizeMismatch => "复合条目声明长度与实际长度不符"
  | objectMaskMissing => "对象条目过短，缺少访问掩码"
  | objectFlagsMissing => "对象条目过短，缺少对象标志"
  | guidTruncated => "对象类型 GUID 被截断"
  | objectSizeMismatch => "对象条目声明长度与实际长度不符"
  | extraTooLong => "附加数据超过上限"
  | fieldCount => "条目记号必须包含六个字段"
  | unknownKind => "未知的条目类型记号"
  | unknownFlag => "未知的条目标志记号"
  | maskNotHex => "访问掩码不是 32 位十六进制数"
  | maskUnrecognised => "无法识别的访问掩码"
  | guidShape => "GUID 文本必须为 8-4-4-4-12 形式"
  | guidDigit => "GUID 含有非十六进制字符"

/-- The words for damage to a list. -/
def ListFault.reason : ListFault → String
  | shortHeader => "剩余字节不足以容纳列表头部"
  | beyondBuffer => "列表声明长度越过缓冲"
  | shorterThanHeader => "列表声明长度小于头部"
  | entryHeaderBeyondEnd => "条目头部越过列表声明长度"
  | entryBeyondEnd => "条目越过列表声明长度"
  | entryMisaligned => "条目长度不是 4 的倍数"
  | tooLong => "列表总长度超过 65535"
  | emptyBody => "列表体为空"
  | entryNotOpened => "条目必须以 `(` 开始"
  | entryNotClosed => "条目缺少 `)`"
  | entryEmptyOrNested => "条目文本为空或含有嵌套括号"

/-- The words for damage to a descriptor. -/
def DescriptorFault.reason : DescriptorFault → String
  | shortHeader => "剩余字节不足以容纳描述符头部"
  | revision => "描述符修订号必须为 1"
  | slotMissing => "描述符头部缺少偏移槽"
  | slotOverflow => "子结构偏移溢出"
  | unbalanced => "括号不匹配"
  | markWithoutLetter => "节前缀缺少字母"
  | noLeadingMark => "描述符文本必须以节前缀开始"
  | sectionsOverlap => "节前缀重叠"
  | unknownMark => "未知的节前缀"
  | repeatedSection => "节重复出现"
  | emptyPrincipal => "所有者或主组节为空"
  | unknownListMark => "无法识别的访问列表节标志"
  | nullListWithEntries => "NO_ACCESS_CONTROL 不能与条目同时出现"
  | listMissing => "访问列表节既无条目也无 NO_ACCESS_CONTROL"

/-- The words for a quantity that is out of range. -/
def Quantity.reason : Quantity → String
  | authority => "颁发机构超过 6 字节"
  | subAuthorityCount => "子颁发机构数量"
  | extraLength => "附加数据长度"
  | extraAlignment => "附加数据长度必须是 4 的倍数"
  | customCode => "自定义条目的类型码必须大于 0x10"
  | listLength => "列表总长度"
  | entryIndex => "条目下标"

/-- The words for a form that is refused. -/
def UnsupportedForm.reason : UnsupportedForm → String
  | domainAbbreviation => "域相对缩写需要域上下文"
  | absoluteDescriptor => "只支持自相对格式的描述符"

/-- The words for a question without an answer. -/
def Unavailable.reason : Unavailable → String
  | domainMissing => "域相对种类缺少域标识符"
  | logonSession => "登录会话标识符没有固定形态"
  | compoundText => "复合条目没有 SDDL 形式"
  | bodyWithoutText => "该条目变体没有 SDDL 形式"
  | kindWithoutToken => "该条目类型没有 SDDL 记号"

namespace Error

/-- A code as a user reads it: two lower-case hexadecimal digits after `0x`. -/
def codeText (code : UInt8) : String :=
  String.ofList ['0', 'x', Nat.digitChar (code.toNat / 16), Nat.digitChar (code.toNat % 16)]

/-- The message a user reads. -/
def message : Error → String
  | identifier fault offset => "安全标识符无效（偏移 " ++ offset.repr ++ "）：" ++ fault.reason
  | entry fault offset => "访问控制条目无效（偏移 " ++ offset.repr ++ "）：" ++ fault.reason
  | list fault offset => "访问控制列表无效（偏移 " ++ offset.repr ++ "）：" ++ fault.reason
  | descriptor fault offset => "安全描述符无效（偏移 " ++ offset.repr ++ "）：" ++ fault.reason
  | outOfRange quantity value limit =>
      quantity.reason ++ "：取值 " ++ value.repr ++ " 超过上限 " ++ limit.repr
  | unsupportedForm form token => "不支持的输入形式 `" ++ token ++ "`：" ++ form.reason
  | unavailable question code => "操作不受支持（代码 " ++ codeText code ++ "）：" ++ question.reason
  | bufferTooSmall required available =>
      "输出缓冲不足：需要 " ++ required.repr ++ " 字节，仅有 " ++ available.repr ++ " 字节"

end Error

end SecurityDescriptor
