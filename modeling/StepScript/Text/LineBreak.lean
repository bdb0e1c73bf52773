/-!
# Line breaks on the screen

A text view shows more line breaks than a script has lines: besides the line feed and the carriage
return, which break once when they stand together, also VT, FF, NEL and the line and paragraph
separators of Unicode. `lineRange?` gives the characters of a shown line.

A shown line that is not the last one loses one character of its break.
-/

set_option autoImplicit false

namespace StepScript.Text

def isBreak (c : Char) : Bool :=
  c == '\n' || c == '\x0b' || c == '\x0c' || c == '\r' || c == '\u0085' || c == '\u2028' ||
    c == '\u2029'

/-- The offsets, in characters, at which the shown lines of a text start after its first line, where
the text itself starts at `offset`. -/
def breakStarts (offset : Nat) : List Char → List Nat
  | [] => []
  | '\r' :: '\n' :: s => (offset + 2) :: breakStarts (offset + 2) s
  | c :: s =>
    if isBreak c then (offset + 1) :: breakStarts (offset + 1) s
    else breakStarts (offset + 1) s

def lineStarts (s : List Char) : List Nat :=
  0 :: breakStarts 0 s

/-- The first character of a shown line, and the character behind its last one. Lines count from
zero. -/
def lineRange? (s : List Char) (line : Nat) : Option (Nat × Nat) :=
  (lineStarts s)[line]?.map fun start =>
    match (lineStarts s)[line + 1]? with
    | some next => (start, next - 1)
    | none => (start, s.length)

end StepScript.Text
