import StepScript.Shell.Bytes

/-!
# Patterns

A pattern stands for texts: a star for any text, a question mark for one byte, brackets for one byte
of a class. A backslash takes its meaning away from what follows.
-/

set_option autoImplicit false

namespace StepScript.Shell

namespace Pattern

/-! ## Classes -/

/-- The place of a byte in the order of ranges, in which bytes above 127 are negative. -/
def rank (c : Char) : Int :=
  if c.toNat < 128 then c.toNat else (c.toNat : Int) - 256

/-- Whether a byte is a printed mark that is neither letter nor digit. -/
def isPunctuation (c : Char) : Bool :=
  '!' ≤ c && c ≤ '~' && !c.isAlphanum

def namedClasses : List (String × (Char → Bool)) :=
  [("alnum", Char.isAlphanum), ("cntrl", fun c => c < ' ' || c == '\x7f'),
    ("lower", Char.isLower), ("space", isSpace), ("alpha", Char.isAlpha),
    ("digit", Char.isDigit), ("print", fun c => ' ' ≤ c && c ≤ '~'), ("upper", Char.isUpper),
    ("blank", fun c => c == ' ' || c == '\t'), ("graph", fun c => '!' ≤ c && c ≤ '~'),
    ("punct", isPunctuation), ("xdigit", fun c => (digitIn? 16 c).isSome)]

/-- The class whose name stands behind an opening bracket, and the pattern behind it. -/
def namedClass? (p : Bytes) : Option ((Char → Bool) × Bytes) :=
  namedClasses.findSome? fun (name, holds) =>
    let text := ':' :: name.toList ++ [':', ']']
    if text.isPrefixOf p then some (holds, p.drop text.length) else none

/-- The members of a class from its first member `c` on, beside those that `holds` tells, and the
pattern behind the class. There is no class if its closing bracket is missing. -/
def classLoop : Nat → (Char → Bool) → Bytes → Option ((Char → Bool) × Bytes)
  | 0, _, _ => none
  | _, _, [] => none
  | fuel + 1, holds, c :: p =>
    let go (more : Char → Bool) (p : Bytes) : Option ((Char → Bool) × Bytes) :=
      let holds (byte : Char) : Bool := holds byte || more byte
      match p with
      | ']' :: p => some (holds, p)
      | p => classLoop fuel holds p
    match if c = '[' then namedClass? p else none with
    | some (more, p) => go more p
    | none =>
      let (c, p) : Char × Bytes :=
        match c, p with
        | '\\', d :: p => (d, p)
        | c, p => (c, p)
      match p with
      | '-' :: d :: behind =>
        if d = ']' then go (· == c) p
        else
          let (d, behind) : Char × Bytes :=
            match d, behind with
            | '\\', e :: behind => (e, behind)
            | d, behind => (d, behind)
          go (fun byte => rank c ≤ rank byte && rank byte ≤ rank d) behind
      | p => go (· == c) p

/-- The class behind an opening bracket, and the pattern behind it. -/
def class? (p : Bytes) : Option ((Char → Bool) × Bytes) :=
  match p with
  | '!' :: members =>
    (classLoop (members.length + 1) (fun _ => false) members).map fun (holds, p) =>
      (fun byte => !holds byte, p)
  | members => classLoop (members.length + 1) (fun _ => false) members

/-! ## Parts -/

inductive Part where
  /-- Any text. -/
  | anything
  /-- One byte of a kind. -/
  | byte (holds : Char → Bool)

/-- The parts of a pattern, of which every one takes at least a byte of it. -/
def partsFrom : Nat → Bytes → List Part
  | 0, _ => []
  | _, [] => []
  | fuel + 1, '*' :: p => .anything :: partsFrom fuel p
  | fuel + 1, '?' :: p => .byte (fun _ => true) :: partsFrom fuel p
  | fuel + 1, '[' :: p =>
    match class? p with
    | some (holds, p) => .byte holds :: partsFrom fuel p
    | none => .byte (· == '[') :: partsFrom fuel p
  | fuel + 1, '\\' :: c :: p => .byte (· == c) :: partsFrom fuel p
  | fuel + 1, c :: p => .byte (· == c) :: partsFrom fuel p

def parts (pattern : Bytes) : List Part :=
  partsFrom pattern.length pattern

/-! ## Matching

A row says of every end of a list of parts, the whole list first, whether it matches a text. A text
is read from its last byte to its first, so the row of a text follows from the row of what is behind
its first byte.
-/

def emptyRow : List Part → List Bool
  | [] => [true]
  | .anything :: parts =>
    let row := emptyRow parts
    row.headD false :: row
  | .byte _ :: parts => false :: emptyRow parts

/-- The row of a text, given its first byte and the row of what is behind that. -/
def nextRow (c : Char) : List Part → List Bool → List Bool
  | [], _ => [false]
  | part :: parts, behind =>
    let row := nextRow c parts (behind.drop 1)
    match part with
    | .anything => (row.headD false || behind.headD false) :: row
    | .byte holds => (holds c && (behind.drop 1).headD false) :: row

/-- How long the ends of a text are that match some parts, the shortest one first. The text is given
from its last byte on, and a byte that is zero ends the text in front of it. -/
def endLengths (parts : List Part) (reversed : Bytes) : List Nat :=
  let start := emptyRow parts
  let note (lengths : List Nat) (n : Nat) (row : List Bool) : List Nat :=
    if row.headD false then n :: lengths else lengths
  let (_, _, lengths) := reversed.foldl (fun (row, n, lengths) c =>
    let row := if c = '\x00' then start else nextRow c parts row
    (row, n + 1, note lengths (n + 1) row)) (start, 0, note [] 0 start)
  lengths.reverse

end Pattern

def matchesPattern (pattern s : Bytes) : Bool :=
  let parts := Pattern.parts pattern
  (s.foldr (fun c row => Pattern.nextRow c parts row) (Pattern.emptyRow parts)).headD false

/-- The part of a text in front of the first byte that is zero. -/
def upToZero (s : Bytes) : Bytes :=
  s.takeWhile (· != '\x00')

/-- How many bytes of a text a pattern takes off one end, if it matches there. A search that starts
at the left ends at a zero, and one that starts at the right goes through all of the text. -/
def cutLength? (fromEnd longest : Bool) (pattern s : Bytes) : Option Nat :=
  let parts := Pattern.parts pattern
  let first := upToZero s
  match fromEnd, longest with
  | false, false => (Pattern.endLengths parts.reverse first).head?
  | false, true =>
    let lengths := Pattern.endLengths parts.reverse first
    if lengths.getLast? == some first.length then some s.length else lengths.getLast?
  | true, false => (Pattern.endLengths parts s.reverse).head?
  | true, true =>
    (Pattern.endLengths parts first.reverse).getLast?.map (· + (s.length - first.length))

end StepScript.Shell
