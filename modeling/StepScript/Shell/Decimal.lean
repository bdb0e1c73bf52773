import StepScript.Shell.Bytes

/-!
# Decimal fractions

Numbers with a fraction are read as the nearest number of 64 bits with a floating point, and written
with a given number of decimal places. A number is written exactly: it is rounded once, at its last
place, and a half goes to the even neighbour.
-/

set_option autoImplicit false

namespace StepScript.Shell

inductive Fraction where
  /-- The sign, and a numerator and a denominator that is not zero. -/
  | finite (negative : Bool) (numerator denominator : Nat)
  | infinite (negative : Bool)
  | undefined (negative : Bool)

namespace Fraction

def ofFloat (negative : Bool) (x : Float) : Fraction :=
  let bits := x.toBits.toNat
  let exponent := bits / Nat.pow 2 52 % 2048
  let fraction := bits % Nat.pow 2 52
  if exponent = 2047 then if fraction = 0 then infinite negative else undefined negative
  else
    let mantissa := if exponent = 0 then fraction else Nat.pow 2 52 + fraction
    let power : Int := (if exponent = 0 then 1 else exponent : Nat) - 1075
    if power < 0 then finite negative mantissa (Nat.pow 2 power.natAbs)
    else finite negative (mantissa * Nat.pow 2 power.natAbs) 1

/-- A quotient rounded to the nearest natural number, and a half to the even one. -/
def roundQuotient (numerator denominator : Nat) : Nat :=
  let q := numerator / denominator
  let r := numerator % denominator
  if 2 * r < denominator then q
  else if 2 * r = denominator then q + q % 2
  else q + 1

/-- The number of 64 bits nearest to `m` times a power of two, and whether it is one of those that
are not too large and not too small for all its digits. -/
def ofBinary (negative : Bool) (m : Nat) (power : Int) : Fraction × Bool :=
  if m = 0 then (finite negative 0 1, true)
  else
    let last := max (Nat.log2 m + power - 52) (-1074)
    let up := (power - last).toNat
    let down := Nat.pow 2 (last - power).toNat
    let q := roundQuotient (m * Nat.pow 2 up) down
    let x :=
      if last < 0 then finite negative q (Nat.pow 2 last.natAbs)
      else finite negative (q * Nat.pow 2 last.toNat) 1
    if 971 < last || (last = 971 && q = Nat.pow 2 53) then (infinite negative, false)
    else (x, decide (Nat.pow 2 52 ≤ q) || m * Nat.pow 2 up % down = 0)

/-! ## Reading -/

/-- A number that was read, what follows it, and whether there are numbers of its size. -/
structure Read where
  number : Fraction
  rest : Bytes
  inRange : Bool

def digits (s : Bytes) : Bytes := s.takeWhile Char.isDigit

/-- The digits of a base at the start of a text, in front of a point and behind it, and what follows
them. -/
def digitsAround (base : Nat) (s : Bytes) : Bytes × Bytes × Bytes :=
  let isDigit (c : Char) : Bool := (digitIn? base c).isSome
  let whole := s.takeWhile isDigit
  match s.drop whole.length with
  | '.' :: t =>
    let part := t.takeWhile isDigit
    if whole.isEmpty && part.isEmpty then ([], [], s) else (whole, part, t.drop part.length)
  | t => (whole, [], t)

/-- The exponent at the start of a text behind its letter, or zero, and what follows it. -/
def readExponent (letter : Char) (s : Bytes) : Int × Bytes :=
  match s with
  | e :: t =>
    if e.toLower == letter then
      let (negative, u) : Bool × Bytes :=
        match t with
        | '-' :: u => (true, u)
        | '+' :: u => (false, u)
        | u => (false, u)
      let ds := digits u
      if ds.isEmpty then (0, s)
      else
        let n : Int := min (digitsIn 10 0 ds).1 100000
        (if negative then -n else n, u.drop ds.length)
    else (0, s)
  | [] => (0, [])

/-- The number at the start of a text that has no sign, with digits of base ten, or of base sixteen
behind a mark. -/
def readUnsigned? (negative : Bool) (s : Bytes) : Option Read :=
  let marked :=
    match s with
    | '0' :: x :: t => if x.toLower == 'x' then some (digitsAround 16 t) else none
    | _ => none
  let decimal : Option Read :=
    let (whole, part, behind) := digitsAround 10 s
    if whole.isEmpty && part.isEmpty then none
    else
      let (exponent, behind) := readExponent 'e' behind
      let mantissa := (digitsIn 10 0 (whole ++ part)).1
      let power := exponent - part.length
      let x := Float.ofScientific mantissa (decide (power < 0)) power.natAbs
      let bits := x.toBits.toNat
      some ⟨ofFloat negative x, behind,
        mantissa == 0 || (decide (Nat.pow 2 52 ≤ bits) && decide (bits < 2047 * Nat.pow 2 52))⟩
  match marked with
  | none | some ([], [], _) => decimal
  | some (whole, part, behind) =>
    let (exponent, behind) := readExponent 'p' behind
    let mantissa := (digitsIn 16 0 (whole ++ part)).1
    let (x, inRange) := ofBinary negative mantissa (exponent - 4 * part.length)
    some ⟨x, behind, inRange⟩

/-- What follows a word of which all letters are known, whatever their cases are. -/
def behindWord? (word : String) (s : Bytes) : Option Bytes :=
  if word.toList.isPrefixOf (s.map Char.toLower) then some (s.drop word.length) else none

/-- The number at the start of a text, behind white space, and what follows it. A text that starts
with no number is zero, and all of it follows. -/
def read (text : Bytes) : Read :=
  let (negative, s) :=
    match text.dropWhile isSpace with
    | '-' :: s => (true, s)
    | '+' :: s => (false, s)
    | s => (false, s)
  match behindWord? "infinity" s <|> behindWord? "inf" s with
  | some rest => ⟨infinite negative, rest, true⟩
  | none =>
    match behindWord? "nan" s with
    | some rest =>
      let inside := (rest.drop 1).takeWhile fun c => c.isAlphanum || c == '_'
      let isTagged := rest.head? == some '(' && rest[inside.length + 1]? == some ')'
      ⟨undefined negative, if isTagged then rest.drop (inside.length + 2) else rest, true⟩
    | none => (readUnsigned? negative s).getD ⟨finite false 0 1, text, true⟩

/-! ## Writing -/

def padded (least n : Nat) : Bytes :=
  let ds := Bytes.ofNat n
  List.replicate (least - ds.length) '0' ++ ds

/-- A number with so many places behind the point. With `point`, a point is written even if nothing
stands behind it. -/
def fixed (numerator denominator places : Nat) (point : Bool) : Bytes :=
  let ds := padded (places + 1) (roundQuotient (numerator * Nat.pow 10 places) denominator)
  let whole := ds.take (ds.length - places)
  if places = 0 then if point then whole ++ ['.'] else whole
  else whole ++ '.' :: ds.drop (ds.length - places)

/-- The largest power of ten that is no more than a positive number. -/
def magnitude (numerator denominator : Nat) : Int :=
  if denominator ≤ numerator then ((Nat.repr (numerator / denominator)).length : Int) - 1
  else
    -- The number is below one: as many places are needed until a digit appears.
    let least := (Nat.repr (denominator / numerator)).length
    let scaled := numerator * Nat.pow 10 (least - 1)
    if denominator ≤ scaled then -((least : Int) - 1) else -(least : Int)

def scaled (numerator denominator : Nat) (power : Int) : Nat × Nat :=
  if 0 ≤ power then (numerator * Nat.pow 10 power.toNat, denominator)
  else (numerator, denominator * Nat.pow 10 power.natAbs)

/-- The exponent of a number that is written with so many places behind its first digit, and all
its digits. -/
def scientificDigits (numerator denominator places : Nat) : Int × Bytes :=
  if numerator = 0 then (0, List.replicate (places + 1) '0')
  else
    let m := magnitude numerator denominator
    let (n, d) := scaled numerator denominator (places - m)
    let ds := Bytes.ofNat (roundQuotient n d)
    if ds.length = places + 2 then (m + 1, ds.dropLast) else (m, ds)

def exponentText (letter : Char) (e : Int) : Bytes :=
  letter :: (if e < 0 then '-' else '+') :: padded 2 e.natAbs

/-- A number with one digit in front of the point, so many behind it, and an exponent. -/
def scientific (numerator denominator places : Nat) (point : Bool) (letter : Char) : Bytes :=
  let (e, ds) := scientificDigits numerator denominator places
  let rest := ds.drop 1
  ds.take 1 ++ (if rest.isEmpty && !point then [] else '.' :: rest) ++ exponentText letter e

/-- A number with so many digits, in the shorter of two forms and without zeros at its end. With
`point`, the zeros stay. -/
def general (numerator denominator count : Nat) (point : Bool) (letter : Char) : Bytes :=
  let count := max count 1
  let (e, _) := scientificDigits numerator denominator (count - 1)
  let trim (s : Bytes) : Bytes :=
    if point || !s.contains '.' then s
    else
      let s := (s.reverse.dropWhile (· == '0')).reverse
      if s.getLast? == some '.' then s.dropLast else s
  if e < -4 || (count : Int) ≤ e then
    let s := scientific numerator denominator (count - 1) point letter
    let mantissa := s.takeWhile (· != letter)
    trim mantissa ++ s.drop mantissa.length
  else trim (fixed numerator denominator ((count : Int) - 1 - e).toNat point)

/-- A number with one digit of base sixteen in front of the point, so many behind it or as many as it
takes, and an exponent of two. -/
def binary (numerator denominator : Nat) (places : Option Nat) (point upper : Bool) : Bytes :=
  let e : Int :=
    if numerator = 0 then 0
    else max ((Nat.log2 numerator : Int) - Nat.log2 denominator) (-1022)
  let count := places.getD 13
  let power := 4 * (count : Int) - e
  let scaled := roundQuotient (numerator * Nat.pow 2 power.toNat)
    (denominator * Nat.pow 2 (-power).toNat)
  let ds := Nat.toDigits 16 scaled
  let ds := List.replicate (count + 1 - ds.length) '0' ++ ds
  let rest := ds.drop 1
  let rest := if places.isSome then rest else (rest.reverse.dropWhile (· == '0')).reverse
  let text := ds.take 1 ++ (if rest.isEmpty && !point then [] else '.' :: rest) ++
    'p' :: (if e < 0 then '-' else '+') :: Bytes.ofNat e.natAbs
  if upper then text.map Char.toUpper else text

end Fraction

end StepScript.Shell
