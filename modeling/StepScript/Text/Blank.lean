/-!
# Blank characters

The **blank** characters of a script are the ones of the `White_Space` property, and trimming
takes them off the ends of a text.

Main statement: `indentation_append_trimStart` — an indentation and the trimmed rest make up the
text.
-/

set_option autoImplicit false

namespace StepScript.Text

/-! ## The table -/

/-- The closed ranges of code points with the `White_Space` property. -/
def blankRanges : List (Nat × Nat) :=
  [(0x0009, 0x000D), (0x0020, 0x0020), (0x0085, 0x0085), (0x00A0, 0x00A0), (0x1680, 0x1680),
   (0x2000, 0x200A), (0x2028, 0x2029), (0x202F, 0x202F), (0x205F, 0x205F), (0x3000, 0x3000)]

/-- A character is **blank** if its code point lies in one of the blank ranges. -/
def isBlank (c : Char) : Bool :=
  blankRanges.any fun r => decide (r.1 ≤ c.toNat) && decide (c.toNat ≤ r.2)

/-- A text is **blank** if it holds blank characters only. -/
def allBlank (s : List Char) : Bool :=
  s.all isBlank

/-! ## Trimming -/

def indentation (s : List Char) : List Char :=
  s.takeWhile isBlank

def trimStart (s : List Char) : List Char :=
  s.dropWhile isBlank

def trimEnd : List Char → List Char
  | [] => []
  | c :: s =>
    match trimEnd s with
    | [] => if isBlank c then [] else [c]
    | t => c :: t

def trim (s : List Char) : List Char :=
  trimEnd (trimStart s)

/-! ## Laws -/

theorem indentation_append_trimStart (s : List Char) : indentation s ++ trimStart s = s :=
  List.takeWhile_append_dropWhile

end StepScript.Text
