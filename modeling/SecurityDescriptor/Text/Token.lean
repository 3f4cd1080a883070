/-
Runs of tokens written without separators, such as `CIOIIO`.

A table gives each token its value.  A run is read from the left, each time taking the longest token
of the table that fits, until nothing is left; a position at which no token fits spoils the whole
run.

Main definitions:

* `Token.Table` — tokens with their values, in the order in which they are written;
* `Token.valueOf?`, `Token.tokenOf?` — looking a table up in either direction;
* `Token.longest?` — the longest token of a table at the front of a text;
* `Token.run?` — the values of a run of tokens.

Main results:

* `Token.run?_nil` — the empty text is the empty run.
-/

set_option relaxedAutoImplicit false
set_option autoImplicit false

namespace SecurityDescriptor

namespace Token

/-- Tokens with their values. -/
abbrev Table (α : Type) := List (String × α)

/-- The value of the token that is exactly `text`. -/
def valueOf? {α : Type} (table : Table α) (text : List Char) : Option α :=
  (table.find? fun row => row.1.toList == text).map Prod.snd

/-- The token of a value. -/
def tokenOf? {α : Type} [BEq α] (table : Table α) (value : α) : Option String :=
  (table.find? fun row => row.2 == value).map Prod.fst

/-- The row with the longest token among those at the front of `text`. -/
def longest? {α : Type} : Table α → List Char → Option (List Char × α)
  | [], _ => none
  | (token, value) :: table, text =>
      let fits := token.toList.isPrefixOf text
      match longest? table text with
      | some best =>
          if fits ∧ best.1.length < token.toList.length then some (token.toList, value)
          else some best
      | none => if fits then some (token.toList, value) else none

/-- Reads tokens behind those whose values are in `read`, newest first.  The first `skip` characters
belong to the token that was read last. -/
def runFrom? {α : Type} (table : Table α) (read : List α) : Nat → List Char → Option (List α)
  | _, [] => some read.reverse
  | skip + 1, _ :: text => runFrom? table read skip text
  | 0, c :: text =>
      match longest? table (c :: text) with
      | some (token, value) => runFrom? table (value :: read) (token.length - 1) text
      | none => none

/-- The values of a text that is a run of tokens, in order. -/
def run? {α : Type} (table : Table α) (text : List Char) : Option (List α) :=
  runFrom? table [] 0 text

@[simp] theorem run?_nil {α : Type} (table : Table α) : run? table [] = some [] := rfl

end Token

end SecurityDescriptor
