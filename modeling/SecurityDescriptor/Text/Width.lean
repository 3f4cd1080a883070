/-
Positions in text, counted in bytes of its UTF-8 form.

Offsets in errors about text are byte offsets, so a character that takes several bytes moves what
follows it by as many.  `Text.columns` spreads a text over its bytes: every character is repeated as
often as it has bytes, so that the character at byte `i` is the one in column `i`.

Main definitions:

* `Text.width` — the number of bytes of a text;
* `Text.columns` — the text with each character repeated once per byte.

Main results:

* `Text.width_append` — widths add up;
* `Text.length_columns` — **a text has as many columns as bytes**.
-/

set_option relaxedAutoImplicit false
set_option autoImplicit false

namespace SecurityDescriptor

namespace Text

/-- The number of bytes of a text in UTF-8. -/
def width (text : List Char) : Nat := text.foldl (fun n c => n + c.utf8Size) 0

private theorem foldl_utf8Size (text : List Char) (n : Nat) :
    text.foldl (fun n c => n + c.utf8Size) n = n + width text := by
  induction text generalizing n with
  | nil => rfl
  | cons c text ih =>
    rw [width, List.foldl_cons, List.foldl_cons, ih, ih (0 + c.utf8Size)]
    omega

@[simp] theorem width_nil : width [] = 0 := rfl

@[simp] theorem width_cons (c : Char) (text : List Char) :
    width (c :: text) = c.utf8Size + width text := by
  rw [width, List.foldl_cons, foldl_utf8Size, Nat.zero_add]

@[simp] theorem width_append (a b : List Char) : width (a ++ b) = width a + width b := by
  rw [width, List.foldl_append, foldl_utf8Size]
  rfl

theorem length_le_width (text : List Char) : text.length ≤ width text := by
  induction text with
  | nil => exact Nat.le_refl 0
  | cons c text ih =>
    have hc : 0 < c.utf8Size := c.utf8Size_pos
    rw [List.length_cons, width_cons]
    omega

/-- The text spread over its bytes: column `i` holds the character that byte `i` belongs to. -/
def columns (text : List Char) : List Char := text.flatMap fun c => List.replicate c.utf8Size c

@[simp] theorem columns_nil : columns [] = [] := rfl

@[simp] theorem columns_cons (c : Char) (text : List Char) :
    columns (c :: text) = List.replicate c.utf8Size c ++ columns text := rfl

@[simp] theorem length_columns (text : List Char) : (columns text).length = width text := by
  induction text with
  | nil => rfl
  | cons c text ih => rw [columns_cons, List.length_append, List.length_replicate, ih, width_cons]

end Text

end SecurityDescriptor
