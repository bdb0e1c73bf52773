import StepScript.Text.Utf8

/-!
# Texts of bytes

A shell knows no characters, only bytes: it measures, cuts and compares texts byte by byte. Here a
text of bytes is a list of characters whose codes are below 256, so that the characters that mean
something to a shell can be written as what they are.

The module also holds what all parts of a shell know about texts: names, numbers, quotes.
-/

set_option autoImplicit false

namespace StepScript.Shell

open Text

/-- A text of bytes: every character stands for the byte that is its code. -/
abbrev Bytes := List Char

namespace Bytes

def ofText (s : List Char) : Bytes :=
  (Utf8.encode s).map fun b => Char.ofNat b.toNat

def toList (s : Bytes) : List UInt8 :=
  s.map fun c => UInt8.ofNat c.toNat

def ofNat (n : Nat) : Bytes :=
  (Nat.repr n).toList

/-- The decimal digits of a number, behind a sign if it is negative. -/
def ofInt (n : Int) : Bytes :=
  if n < 0 then '-' :: ofNat n.natAbs else ofNat n.natAbs

def comesBefore (a b : Bytes) : Bool :=
  decide (a < b)

end Bytes

/-! ## Names -/

def isNameStart (c : Char) : Bool :=
  c.isAlpha || c == '_'

def isNamePart (c : Char) : Bool :=
  c.isAlphanum || c == '_'

def isName : Bytes → Bool
  | [] => false
  | c :: s => isNameStart c && s.all isNamePart

def isSpace (c : Char) : Bool :=
  c == ' ' || ('\t' ≤ c && c ≤ '\r')

/-- The name in front of the first equals sign, and the value behind it, if there is one. -/
def splitAssignment (s : Bytes) : Bytes × Option Bytes :=
  match s.dropWhile (· != '=') with
  | [] => (s, none)
  | _ :: value => (s.takeWhile (· != '='), some value)

/-! ## Quotes -/

/-- A text in single quotes, as a shell would read it back. The single quotes of the text stand
between double ones. -/
def quoted (s : Bytes) : Bytes :=
  go (s.length + 1) s
where
  /-- A text up to its next single quotes, and those. -/
  go : Nat → Bytes → Bytes
    | 0, _ => []
    | fuel + 1, s =>
      let plain := s.takeWhile (· != '\'')
      let marks := (s.drop plain.length).takeWhile (· == '\'')
      let rest := s.drop (plain.length + marks.length)
      '\'' :: plain ++ '\'' :: (if marks.isEmpty then [] else '"' :: marks ++ ['"']) ++
        if rest.isEmpty then [] else go fuel rest

/-! ## Numbers -/

def wrap64 (n : Int) : Int :=
  Int.bmod n UInt64.size

def clamp64 (n : Int) : Int :=
  max (-Int.pow 2 63) (min (Int.pow 2 63 - 1) n)

def digitIn? (base : Nat) (c : Char) : Option Nat :=
  let value :=
    if c.isDigit then c.toNat - '0'.toNat
    else if 'a' ≤ c ∧ c ≤ 'f' then c.toNat - 'a'.toNat + 10
    else if 'A' ≤ c ∧ c ≤ 'F' then c.toNat - 'A'.toNat + 10
    else 16
  if value < base then some value else none

/-- The number that the digits at the start of a text stand for, behind some digits that stand for
`value`, and what follows them. -/
def digitsIn (base value : Nat) : Bytes → Nat × Bytes
  | [] => (value, [])
  | c :: s =>
    match digitIn? base c with
    | some d => digitsIn base (base * value + d) s
    | none => (value, c :: s)

/-- What stands at the start of a text where a number is expected. -/
structure NumberRead where
  /-- The number, or zero if there is none. -/
  value : Int
  /-- What follows it. -/
  rest : Bytes
  /-- Whether there is a number. -/
  found : Bool

/-- The number at the start of a text, behind white space. Without a base, it is written in base
ten, in base eight behind a zero, or in base sixteen behind a zero and an x. -/
def readNumber (base : Option Nat) (text : Bytes) : NumberRead :=
  let (negative, s) :=
    match text.dropWhile isSpace with
    | '-' :: s => (true, s)
    | '+' :: s => (false, s)
    | s => (false, s)
  let (base, digits) : Nat × Bytes :=
    match base, s with
    | some base, s => (base, s)
    | none, '0' :: x :: c :: s =>
      if (x == 'x' || x == 'X') && (digitIn? 16 c).isSome then (16, c :: s)
      else (8, '0' :: x :: c :: s)
    | none, '0' :: s => (8, '0' :: s)
    | none, s => (10, s)
  let (value, rest) := digitsIn base 0 digits
  if rest.length < digits.length then ⟨if negative then -value else value, rest, true⟩
  else ⟨0, text, false⟩

/-- The integer that is all of a text, with white space around it. Without a base, a text without a
number is zero. -/
def wholeNumber? (base : Option Nat) (text : Bytes) : Option Int :=
  let n := readNumber base text
  if n.value ≠ clamp64 n.value then none
  else if base.isSome && !n.found then none
  else if (n.rest.dropWhile isSpace).isEmpty then some n.value
  else none

end StepScript.Shell
