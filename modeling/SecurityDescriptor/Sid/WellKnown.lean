/-
Well-known security identifiers.

The registry numbers the principals that every system knows.  Most have one identifier everywhere;
some are numbered within an account domain, whose identifier has to be given; the identifiers of
logon sessions differ from session to session and cannot be made.

Main definitions:

* `WellKnown`, `WellKnown.registry` — the kinds of principals, in the order of their codes;
* `WellKnown.toSid` — the identifier of a kind, given a domain where it needs one;
* `Sid.isWellKnown`, `Sid.wellKnown?` — the kinds whose fixed identifier this is, and the first of
  them.

Main results:

* `WellKnown.code_registry` — **the code of a kind is its place in the registry**.
-/

import SecurityDescriptor.Sid.Basic

set_option relaxedAutoImplicit false
set_option autoImplicit false

namespace SecurityDescriptor

namespace WellKnown

/-- How the identifier of a kind is composed. -/
inductive Form
  /-- The same identifier everywhere. -/
  | fixed (authority : Nat) (subAuthorities : List UInt32)
  /-- The identifier of a domain followed by a relative identifier. -/
  | inDomain (rid : UInt32)
  /-- Another identifier each time. -/
  | varying
  deriving DecidableEq, Repr

end WellKnown

/-- A kind of well-known principal. -/
structure WellKnown where
  code : UInt8
  name : String
  form : WellKnown.Form
  deriving DecidableEq, Repr

namespace WellKnown

/-- All kinds, in the order of their codes. -/
def registry : List WellKnown :=
  [ ⟨0, "Null", .fixed 0 [0]⟩,
    ⟨1, "World", .fixed 1 [0]⟩,
    ⟨2, "Local", .fixed 2 [0]⟩,
    ⟨3, "CreatorOwner", .fixed 3 [0]⟩,
    ⟨4, "CreatorGroup", .fixed 3 [1]⟩,
    ⟨5, "CreatorOwnerServer", .fixed 3 [2]⟩,
    ⟨6, "CreatorGroupServer", .fixed 3 [3]⟩,
    ⟨7, "NtAuthority", .fixed 5 []⟩,
    ⟨8, "Dialup", .fixed 5 [1]⟩,
    ⟨9, "Network", .fixed 5 [2]⟩,
    ⟨10, "Batch", .fixed 5 [3]⟩,
    ⟨11, "Interactive", .fixed 5 [4]⟩,
    ⟨12, "Service", .fixed 5 [6]⟩,
    ⟨13, "Anonymous", .fixed 5 [7]⟩,
    ⟨14, "Proxy", .fixed 5 [8]⟩,
    ⟨15, "EnterpriseControllers", .fixed 5 [9]⟩,
    ⟨16, "SelfPrincipal", .fixed 5 [10]⟩,
    ⟨17, "AuthenticatedUser", .fixed 5 [11]⟩,
    ⟨18, "RestrictedCode", .fixed 5 [12]⟩,
    ⟨19, "TerminalServer", .fixed 5 [13]⟩,
    ⟨20, "RemoteLogonId", .fixed 5 [14]⟩,
    ⟨21, "LogonIds", .varying⟩,
    ⟨22, "LocalSystem", .fixed 5 [18]⟩,
    ⟨23, "LocalService", .fixed 5 [19]⟩,
    ⟨24, "NetworkService", .fixed 5 [20]⟩,
    ⟨25, "BuiltinDomain", .fixed 5 [32]⟩,
    ⟨26, "BuiltinAdministrators", .fixed 5 [32, 544]⟩,
    ⟨27, "BuiltinUsers", .fixed 5 [32, 545]⟩,
    ⟨28, "BuiltinGuests", .fixed 5 [32, 546]⟩,
    ⟨29, "BuiltinPowerUsers", .fixed 5 [32, 547]⟩,
    ⟨30, "BuiltinAccountOperators", .fixed 5 [32, 548]⟩,
    ⟨31, "BuiltinSystemOperators", .fixed 5 [32, 549]⟩,
    ⟨32, "BuiltinPrintOperators", .fixed 5 [32, 550]⟩,
    ⟨33, "BuiltinBackupOperators", .fixed 5 [32, 551]⟩,
    ⟨34, "BuiltinReplicator", .fixed 5 [32, 552]⟩,
    ⟨35, "BuiltinPreWindows2000CompatibleAccess", .fixed 5 [32, 554]⟩,
    ⟨36, "BuiltinRemoteDesktopUsers", .fixed 5 [32, 555]⟩,
    ⟨37, "BuiltinNetworkConfigurationOperators", .fixed 5 [32, 556]⟩,
    ⟨38, "AccountAdministrator", .inDomain 500⟩,
    ⟨39, "AccountGuest", .inDomain 501⟩,
    ⟨40, "AccountKrbtgt", .inDomain 502⟩,
    ⟨41, "AccountDomainAdmins", .inDomain 512⟩,
    ⟨42, "AccountDomainUsers", .inDomain 513⟩,
    ⟨43, "AccountDomainGuests", .inDomain 514⟩,
    ⟨44, "AccountComputers", .inDomain 515⟩,
    ⟨45, "AccountControllers", .inDomain 516⟩,
    ⟨46, "AccountCertAdmins", .inDomain 517⟩,
    ⟨47, "AccountSchemaAdmins", .inDomain 518⟩,
    ⟨48, "AccountEnterpriseAdmins", .inDomain 519⟩,
    ⟨49, "AccountPolicyAdmins", .inDomain 520⟩,
    ⟨50, "AccountRasAndIasServers", .inDomain 553⟩,
    ⟨51, "NtlmAuthentication", .fixed 5 [64, 10]⟩,
    ⟨52, "DigestAuthentication", .fixed 5 [64, 21]⟩,
    ⟨53, "SChannelAuthentication", .fixed 5 [64, 14]⟩,
    ⟨54, "ThisOrganization", .fixed 5 [15]⟩,
    ⟨55, "OtherOrganization", .fixed 5 [1000]⟩,
    ⟨56, "BuiltinIncomingForestTrustBuilders", .fixed 5 [32, 557]⟩,
    ⟨57, "BuiltinPerformanceMonitoringUsers", .fixed 5 [32, 558]⟩,
    ⟨58, "BuiltinPerformanceLoggingUsers", .fixed 5 [32, 559]⟩,
    ⟨59, "BuiltinAuthorizationAccess", .fixed 5 [32, 560]⟩,
    ⟨60, "BuiltinTerminalServerLicenseServers", .fixed 5 [32, 561]⟩,
    ⟨61, "BuiltinDcomUsers", .fixed 5 [32, 562]⟩,
    ⟨62, "BuiltinIUsers", .fixed 5 [32, 568]⟩,
    ⟨63, "IUser", .fixed 5 [17]⟩,
    ⟨64, "BuiltinCryptoOperators", .fixed 5 [32, 569]⟩,
    ⟨65, "UntrustedLabel", .fixed 16 [0]⟩,
    ⟨66, "LowLabel", .fixed 16 [0x1000]⟩,
    ⟨67, "MediumLabel", .fixed 16 [0x2000]⟩,
    ⟨68, "HighLabel", .fixed 16 [0x3000]⟩,
    ⟨69, "SystemLabel", .fixed 16 [0x4000]⟩,
    ⟨70, "WriteRestrictedCode", .fixed 5 [33]⟩,
    ⟨71, "CreatorOwnerRights", .fixed 3 [4]⟩,
    ⟨72, "CacheablePrincipalsGroup", .inDomain 571⟩,
    ⟨73, "NonCacheablePrincipalsGroup", .inDomain 572⟩,
    ⟨74, "EnterpriseReadonlyControllers", .inDomain 498⟩,
    ⟨75, "AccountReadonlyControllers", .inDomain 521⟩,
    ⟨76, "BuiltinEventLogReaders", .fixed 5 [32, 573]⟩,
    ⟨77, "NewEnterpriseReadonlyControllers", .fixed 5 [22]⟩,
    ⟨78, "BuiltinCertSvcDcomAccess", .fixed 5 [32, 574]⟩,
    ⟨79, "MediumPlusLabel", .fixed 16 [0x2100]⟩,
    ⟨80, "LocalLogon", .fixed 2 [0]⟩,
    ⟨81, "ConsoleLogon", .fixed 2 [1]⟩,
    ⟨82, "ThisOrganizationCertificate", .fixed 5 [65, 1]⟩,
    ⟨83, "ApplicationPackageAuthority", .fixed 15 [2]⟩,
    ⟨84, "BuiltinAnyPackage", .fixed 15 [2, 1]⟩,
    ⟨85, "CapabilityInternetClient", .fixed 15 [3, 1]⟩,
    ⟨86, "CapabilityInternetClientServer", .fixed 15 [3, 2]⟩,
    ⟨87, "CapabilityPrivateNetworkClientServer", .fixed 15 [3, 3]⟩,
    ⟨88, "CapabilityPicturesLibrary", .fixed 15 [3, 4]⟩,
    ⟨89, "CapabilityVideosLibrary", .fixed 15 [3, 5]⟩,
    ⟨90, "CapabilityMusicLibrary", .fixed 15 [3, 6]⟩,
    ⟨91, "CapabilityDocumentsLibrary", .fixed 15 [3, 7]⟩,
    ⟨92, "CapabilitySharedUserCertificates", .fixed 15 [3, 9]⟩,
    ⟨93, "CapabilityEnterpriseAuthentication", .fixed 15 [3, 8]⟩,
    ⟨94, "CapabilityRemovableStorage", .fixed 15 [3, 10]⟩ ]

/-- **The code of a kind is its place in the registry.** -/
theorem code_registry : registry.map (·.code.toNat) = List.range 95 := by decide +kernel

/-- The kind with the given code. -/
def ofCode? (code : Nat) : Option WellKnown := registry[code]?

/-- Whether the kind is numbered within a domain. -/
def needsDomain (kind : WellKnown) : Bool :=
  match kind.form with
  | .inDomain _ => true
  | _ => false

/-- The identifier of a kind.  A kind with a fixed identifier does not look at the domain. -/
def toSid (kind : WellKnown) (domain : Option Sid) : Except Error Sid :=
  match kind.form with
  | .fixed authority subAuthorities => Sid.make authority subAuthorities
  | .inDomain rid =>
      match domain with
      | none => .error (.unavailable .domainMissing kind.code)
      | some domain =>
          if domain.isAccountDomain then domain.append rid
          else .error (.identifier .notAccountDomain 0)
  | .varying => .error (.unavailable .logonSession kind.code)

end WellKnown

namespace Sid

/-- Whether this is the fixed identifier of the given kind. -/
def isWellKnown (s : Sid) (kind : WellKnown) : Bool :=
  match kind.form with
  | .fixed authority subAuthorities =>
      authority == s.authority && subAuthorities == s.subAuthorities
  | _ => false

/-- The kind whose fixed identifier this is; of several, the one with the least code. -/
def wellKnown? (s : Sid) : Option WellKnown := WellKnown.registry.find? s.isWellKnown

/-- All kinds whose fixed identifier this is, in the order of their codes. -/
def wellKnownKinds (s : Sid) : List WellKnown := WellKnown.registry.filter s.isWellKnown

end Sid

end SecurityDescriptor
