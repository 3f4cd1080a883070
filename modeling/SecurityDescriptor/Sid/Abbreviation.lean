/-
Two-letter abbreviations of security identifiers.

Some abbreviations stand for one identifier everywhere.  Others stand for an identifier within the
domain at hand, and without a domain they stand for nothing.  Case matters.

Main definitions:

* `Sid.Abbreviation`, `Sid.abbreviations` — the abbreviations of fixed identifiers;
* `Sid.domainAbbreviations` — the abbreviations that need a domain;
* `Sid.abbreviated?` — the abbreviation that a text is.
-/

import SecurityDescriptor.Sid.Basic

set_option relaxedAutoImplicit false
set_option autoImplicit false

namespace SecurityDescriptor

namespace Sid

/-- An abbreviation and the parts of the identifier that it stands for. -/
structure Abbreviation where
  token : String
  authority : Nat
  subAuthorities : List UInt32
  deriving DecidableEq, Repr

/-- The abbreviations of fixed identifiers, in alphabetical order. -/
def abbreviations : List Abbreviation :=
  [ ⟨"AA", 5, [32, 579]⟩,
    ⟨"AC", 15, [2, 1]⟩,
    ⟨"AN", 5, [7]⟩,
    ⟨"AO", 5, [32, 548]⟩,
    ⟨"AS", 18, [1]⟩,
    ⟨"AU", 5, [11]⟩,
    ⟨"BA", 5, [32, 544]⟩,
    ⟨"BG", 5, [32, 546]⟩,
    ⟨"BO", 5, [32, 551]⟩,
    ⟨"BU", 5, [32, 545]⟩,
    ⟨"CD", 5, [32, 574]⟩,
    ⟨"CG", 3, [1]⟩,
    ⟨"CO", 3, [0]⟩,
    ⟨"CY", 5, [32, 569]⟩,
    ⟨"ED", 5, [9]⟩,
    ⟨"ER", 5, [32, 573]⟩,
    ⟨"HA", 5, [32, 578]⟩,
    ⟨"HI", 16, [0x3000]⟩,
    ⟨"IS", 5, [32, 568]⟩,
    ⟨"IU", 5, [4]⟩,
    ⟨"LS", 5, [19]⟩,
    ⟨"LU", 5, [32, 559]⟩,
    ⟨"LW", 16, [0x1000]⟩,
    ⟨"ME", 16, [0x2000]⟩,
    ⟨"MU", 5, [32, 558]⟩,
    ⟨"NO", 5, [32, 556]⟩,
    ⟨"NS", 5, [20]⟩,
    ⟨"NU", 5, [2]⟩,
    ⟨"OW", 3, [4]⟩,
    ⟨"PO", 5, [32, 550]⟩,
    ⟨"PS", 5, [10]⟩,
    ⟨"PU", 5, [32, 547]⟩,
    ⟨"RA", 5, [32, 575]⟩,
    ⟨"RC", 5, [12]⟩,
    ⟨"RD", 5, [32, 555]⟩,
    ⟨"RE", 5, [32, 552]⟩,
    ⟨"RM", 5, [32, 580]⟩,
    ⟨"RU", 5, [32, 554]⟩,
    ⟨"SI", 16, [0x4000]⟩,
    ⟨"SO", 5, [32, 549]⟩,
    ⟨"SS", 18, [2]⟩,
    ⟨"SU", 5, [6]⟩,
    ⟨"SY", 5, [18]⟩,
    ⟨"WD", 1, [0]⟩,
    ⟨"WR", 5, [33]⟩ ]

/-- The abbreviations that stand for an identifier of the domain at hand. -/
def domainAbbreviations : List String :=
  [ "AP", "CA", "CN", "DA", "DC", "DD", "DG", "DU", "EA", "EK", "KA", "LA", "LG", "PA", "RO",
    "RS", "SA" ]

/-- The abbreviation that is exactly `text`. -/
def abbreviated? (text : List Char) : Option Abbreviation :=
  abbreviations.find? fun row => row.token.toList == text

/-- Whether `text` is an abbreviation that needs a domain. -/
def isDomainAbbreviation (text : List Char) : Bool :=
  domainAbbreviations.any fun token => token.toList == text

end Sid

end SecurityDescriptor
