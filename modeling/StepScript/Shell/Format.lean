import StepScript.Shell.Decimal
import StepScript.Shell.State

/-!
# Formatted output

Output is written after a format, in which backslashes start escapes and percent signs start
directives. The format is used over and over until all arguments are written. Widths count bytes.
-/

set_option autoImplicit false

namespace StepScript.Shell

/-! ## Escapes -/

/-- The number that the octal digits at the start of a text stand for, at most `count` of them, and
what follows them. -/
def octal (value : Nat) : Nat → Bytes → Nat × Bytes
  | 0, s => (value, s)
  | _, [] => (value, [])
  | count + 1, c :: s =>
    if '0' ≤ c ∧ c ≤ '7' then octal (8 * value + (c.toNat - '0'.toNat)) count s else (value, c :: s)

/-- The byte that an escape behind its backslash stands for, and what follows it. An escape without
a meaning is a backslash, and all of it follows. -/
def escapedByte : Bytes → Char × Bytes
  | 'a' :: s => ('\x07', s)
  | 'b' :: s => ('\x08', s)
  | 'e' :: s => ('\x1b', s)
  | 'f' :: s => ('\x0c', s)
  | 'n' :: s => ('\n', s)
  | 'r' :: s => ('\r', s)
  | 't' :: s => ('\t', s)
  | 'v' :: s => ('\x0b', s)
  | '\\' :: s => ('\\', s)
  | c :: s =>
    if '0' ≤ c ∧ c ≤ '7' then
      let (value, s) := octal 0 3 (c :: s)
      (Char.ofNat (value % 256), s)
    else ('\\', c :: s)
  | [] => ('\\', [])

/-- A text in which escapes are undone, and whether all output ends behind it. Here an octal number
may have a zero in front. -/
def unescape : Nat → Bytes → Bytes × Bool
  | 0, _ => ([], false)
  | _, [] => ([], false)
  | fuel + 1, '\\' :: s =>
    match s with
    | 'c' :: _ => ([], true)
    | s =>
      let s :=
        match s with
        | '0' :: c :: t => if '0' ≤ c ∧ c ≤ '7' then c :: t else s
        | s => s
      let (c, s) := escapedByte s
      let (more, stop) := unescape fuel s
      (c :: more, stop)
  | fuel + 1, c :: s =>
    let (more, stop) := unescape fuel s
    (c :: more, stop)

def echoed (words : List Bytes) : Bytes :=
  let (words, ends) : List Bytes × Bytes :=
    match words with
    | ['-', 'n'] :: words => (words, [])
    | words => (words, ['\n'])
  let line : Bytes := [' '].intercalate words
  let (text, stop) := unescape (line.length + 1) line
  if stop then text else text ++ ends

/-! ## Layouts -/

structure Layout where
  left : Bool
  zeros : Bool
  plus : Bool
  space : Bool
  alternate : Bool
  width : Nat
  precision : Option Nat

namespace Layout

def pad (l : Layout) (s : Bytes) : Bytes :=
  let fill := List.replicate (l.width - s.length) ' '
  if l.left then s ++ fill else fill ++ s

def text (l : Layout) (s : Bytes) : Bytes :=
  l.pad (match l.precision with
    | some n => s.take n
    | none => s)

def sign (l : Layout) (negative : Bool) : Bytes :=
  if negative then ['-'] else if l.plus then ['+'] else if l.space then [' '] else []

/-- A number of which the sign and the digits are known, filled with zeros behind the sign if the
layout says so. -/
def filled (l : Layout) (sign digits : Bytes) : Bytes :=
  let zeros := if l.zeros && !l.left then l.width - sign.length - digits.length else 0
  l.pad (sign ++ List.replicate zeros '0' ++ digits)

/-- A whole number of which the sign and the digits are known. A precision is the least number of
digits. -/
def whole (l : Layout) (sign digits : Bytes) : Bytes :=
  match l.precision with
  | none => l.filled sign digits
  | some n =>
    let digits := if n = 0 && digits == ['0'] then [] else digits
    l.pad (sign ++ List.replicate (n - digits.length) '0' ++ digits)

def digitsOf (base n : Nat) (upper : Bool) : Bytes :=
  (Nat.toDigits base n).map fun c => if upper then c.toUpper else c

/-- An integer as a directive shows it. Numbers without a sign have 64 bits. -/
def integer (l : Layout) (kind : Char) (n : Int) : Bytes :=
  let word := (n % (UInt64.size : Int)).toNat
  if kind = 'x' then
    l.whole (if l.alternate && word != 0 then ['0', 'x'] else []) (digitsOf 16 word false)
  else if kind = 'X' then
    l.whole (if l.alternate && word != 0 then ['0', 'X'] else []) (digitsOf 16 word true)
  else if kind = 'o' then
    let digits := digitsOf 8 word false
    l.whole [] (if l.alternate && word != 0 then '0' :: digits else digits)
  else if kind = 'u' then l.whole [] (digitsOf 10 word false)
  else l.whole (l.sign (n < 0)) (digitsOf 10 n.natAbs false)

def fraction (l : Layout) (kind : Char) : Fraction → Bytes
  | .finite negative n d =>
    let places := l.precision.getD 6
    let letter := if kind.isUpper then 'E' else 'e'
    let digits :=
      match kind.toLower with
      | 'e' => Fraction.scientific n d places l.alternate letter
      | 'g' => Fraction.general n d places l.alternate letter
      | 'a' => Fraction.binary n d l.precision l.alternate kind.isUpper
      | _ => Fraction.fixed n d places l.alternate
    let mark : Bytes := if kind = 'a' then ['0', 'x'] else if kind = 'A' then ['0', 'X'] else []
    l.filled (l.sign negative ++ mark) digits
  | .infinite negative =>
    l.pad (l.sign negative ++ (if kind.isUpper then "INF" else "inf").toList)
  | .undefined negative =>
    l.pad (l.sign negative ++ (if kind.isUpper then "NAN" else "nan").toList)

end Layout

/-! ## Formats -/

namespace Format

/-- What is left to print, and the status so far. -/
structure Printing where
  args : List Bytes
  status : Nat

abbrev Print := StateT Printing Act

def argument? : Print (Option Bytes) :=
  modifyGet fun p => (p.args.head?, { p with args := p.args.drop 1 })

def complain (arg : Bytes) (message : String) : Print Unit := do
  Act.warn (arg ++ ": ".toList ++ message.toList)
  modify fun p => { p with status := 1 }

def checkRest (arg rest : Bytes) : Print Unit := do
  if !rest.isEmpty then
    complain arg (if rest == arg then "expected numeric value" else "not completely converted")

/-- The number that the next argument stands for, where a quotation mark in front gives the code of
the next byte. -/
def integer (signed : Bool) : Print Int := do
  match ← argument? with
  | none => return 0
  | some arg =>
    match arg with
    | '"' :: s | '\'' :: s => return (s.head?.map fun c => c.toNat).getD 0
    | arg =>
      let n := readNumber none arg
      let (low, high) : Int × Int :=
        if signed then (-Int.pow 2 63, Int.pow 2 63 - 1)
        else (-(Int.pow 2 64 - 1), Int.pow 2 64 - 1)
      let rest := if n.found then n.rest else arg
      checkRest arg rest
      if n.value < low || high < n.value then
        if rest.isEmpty then complain arg "Numerical result out of range"
        return if n.value < low && signed then low else high
      return n.value

def fraction : Print Fraction := do
  match ← argument? with
  | none => return .finite false 0 1
  | some arg =>
    match arg with
    | '"' :: s | '\'' :: s => return .finite false ((s.head?.map fun c => c.toNat).getD 0) 1
    | arg =>
      let r := Fraction.read arg
      checkRest arg r.rest
      if r.rest.isEmpty && !r.inRange then complain arg "Numerical result out of range"
      return r.number

/-- The number at the start of a text, which may be a star that takes an argument, with its text
and what follows it. -/
def size (s : Bytes) : Print (Option Int × Bytes × Bytes) := do
  match s with
  | '*' :: s => return (some (Int.bmod (← integer true) UInt32.size), ['*'], s)
  | s =>
    let digits := s.takeWhile Char.isDigit
    return (if digits.isEmpty then none else some (digitsIn 10 0 digits).1, digits,
      s.drop digits.length)

/-- A directive from behind its percent sign on. The answer is what follows it, or nothing if all
output ends. -/
def directive (s : Bytes) : Print (Option Bytes) := do
  let isFlag (c : Char) : Bool := c == '#' || c == '-' || c == '+' || c == ' ' || c == '0'
  let flags := s.takeWhile isFlag
  let (width, widthText, s) ← size (s.dropWhile isFlag)
  let (precision, precisionText, s) ←
    match s with
    | '.' :: s =>
      let (n, text, s) ← size s
      pure (some (n.getD 0), '.' :: text, s)
    | s => pure (none, [], s)
  let layout : Layout :=
    { left := flags.contains '-' || decide (width.getD 0 < 0)
      zeros := flags.contains '0'
      plus := flags.contains '+'
      space := flags.contains ' '
      alternate := flags.contains '#'
      width := (width.getD 0).natAbs
      precision := precision.bind fun n => if n < 0 then none else some n.toNat }
  match s with
  | [] => Act.fault "missing format character".toList
  | kind :: s =>
    if kind = 's' then
      Act.emit (layout.text ((← argument?).getD []))
      return some s
    else if kind = 'c' then
      let arg := (← argument?).getD []
      Act.emit (layout.pad [arg.headD '\x00'])
      return some s
    else if kind = 'b' then
      let arg := (← argument?).getD []
      let (text, stop) := unescape (arg.length + 1) arg
      Act.emit (layout.text text)
      return if stop then none else some s
    else if kind = 'd' || kind = 'i' then
      Act.emit (layout.integer 'd' (← integer true))
      return some s
    else if kind = 'u' || kind = 'o' || kind = 'x' || kind = 'X' then
      Act.emit (layout.integer kind (← integer false))
      return some s
    else if ['a', 'A', 'e', 'E', 'f', 'F', 'g', 'G'].contains kind then
      Act.emit (layout.fraction kind (← fraction))
      return some s
    else
      Act.faultOf ('%' :: flags ++ widthText ++ precisionText ++ [kind]) "invalid directive"

def isPlain (c : Char) : Bool :=
  c != '\\' && c != '%'

/-- A use of a format up to its end. The answer is whether output goes on behind it. -/
def once : Nat → Bytes → Print Bool
  | 0, _ => return true
  | _, [] => return true
  | fuel + 1, '\\' :: s => do
    let (c, s) := escapedByte s
    Act.emit [c]
    once fuel s
  | fuel + 1, '%' :: '%' :: s => do
    Act.emit ['%']
    once fuel s
  | fuel + 1, '%' :: s => do
    match ← directive s with
    | some s => once fuel s
    | none => return false
  | fuel + 1, s => do
    Act.emit (s.takeWhile isPlain)
    once fuel (s.dropWhile isPlain)

/-- A format is used until no argument is left, or once if it takes none. -/
def repeatedly (format : Bytes) : Nat → Print Unit
  | 0 => return
  | fuel + 1 => do
    let before := (← get).args.length
    if ← once (format.length + 1) format then
      let left := (← get).args.length
      if left != 0 && left != before then repeatedly format fuel

end Format

def Act.print (format : Bytes) (args : List Bytes) : Act Nat := do
  let (_, p) ← (Format.repeatedly format (args.length + 1)).run ⟨args, 0⟩
  return p.status

end StepScript.Shell
