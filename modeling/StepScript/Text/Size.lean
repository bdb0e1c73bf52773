/-!
# Sizes

A text is measured in two units: **characters**, which is the length of the list, and **bytes** of
its UTF-8 form. Tokens are placed by bytes, styles by characters.

Main statement: `byteSize_append` — bytes add up over concatenation, so a byte offset is the size
of what comes before.
-/

set_option autoImplicit false

namespace StepScript.Text

def byteSize : List Char → Nat
  | [] => 0
  | c :: s => c.utf8Size + byteSize s

@[simp] theorem byteSize_nil : byteSize [] = 0 := rfl

@[simp] theorem byteSize_append (s t : List Char) :
    byteSize (s ++ t) = byteSize s + byteSize t := by
  induction s with
  | nil => simp
  | cons c s ih => simp [byteSize, ih, Nat.add_assoc]

/-- Only the empty text has no bytes. -/
theorem byteSize_eq_zero {s : List Char} : byteSize s = 0 ↔ s = [] := by
  cases s with
  | nil => simp
  | cons c s =>
    have := c.utf8Size_pos
    simp [byteSize]
    omega

end StepScript.Text
