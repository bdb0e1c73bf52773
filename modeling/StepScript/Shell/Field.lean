import StepScript.Shell.Pattern

/-!
# Fields

What a word becomes when it is expanded is a list of **atoms**: bytes, each of which means itself or
may mean something in a pattern, and marks of quotes, which make a field of a text even if there is
nothing in it. **Regions** say which atoms may be separators of fields.

White space around a separator belongs to it, and white space alone is a separator too; a byte that
is zero separates fields whatever the separators are.
-/

set_option autoImplicit false

namespace StepScript.Shell

/-! ## Atoms -/

inductive Atom where
  /-- A byte, and whether it means itself. -/
  | byte (c : Char) (plain : Bool)
  /-- A mark where quotes open or close. -/
  | quote
deriving DecidableEq

instance : Inhabited Atom := ⟨.quote⟩

namespace Atom

def byte? : Atom → Option Char
  | .byte c _ => some c
  | .quote => none

def text (atoms : List Atom) : Bytes :=
  atoms.filterMap byte?

/-- The pattern that some atoms stand for. A backslash in front of a byte that means itself does not
take the meaning of another backslash away. -/
def pattern (atoms : List Atom) : Bytes :=
  go false true atoms
where
  /-- The pattern of the rest of some atoms, given whether quotes are open and whether the atom in
  front is no backslash. -/
  go (inQuotes fresh : Bool) : List Atom → Bytes
    | [] => []
    | .quote :: rest => go (!inQuotes) true rest
    | .byte '\\' false :: rest => '\\' :: go inQuotes false rest
    | .byte c false :: rest => c :: go inQuotes true rest
    | .byte c true :: rest =>
      (if fresh then ['\\'] else if inQuotes then ['\\', '\\'] else []) ++ c :: go inQuotes true rest

def isPattern (atoms : List Atom) : Bool :=
  atoms.any fun a => a == .byte '*' false || a == .byte '?' false || a == .byte '[' false

end Atom

/-! ## Regions -/

/-- A stretch of atoms that may be separators. -/
structure Region where
  start : Nat
  stop : Nat
  /-- Whether only a byte that is zero is one. -/
  zeroOnly : Bool
deriving DecidableEq

structure Expanded where
  atoms : Array Atom
  /-- The regions, the last one first. -/
  regions : List Region

namespace Expanded

def empty : Expanded := ⟨#[], []⟩

/-- An expanded word with another region, from `start` to its end. -/
def region (e : Expanded) (start : Nat) (zeroOnly : Bool) : Expanded :=
  { e with regions := ⟨start, e.atoms.size, zeroOnly⟩ :: e.regions }

def forgetRegions (e : Expanded) (start : Nat) : Expanded :=
  { e with
    regions := (e.regions.filter (·.start < start)).map fun r => { r with stop := min r.stop start } }

end Expanded

/-! ## Splitting -/

structure Splitting where
  /-- Where the next field starts. -/
  start : Nat
  /-- Whether the last separator may go on, since it is white space so far. -/
  inBlank : Bool
  /-- Where the rest ends that makes up the last field, if blanks are taken off it. -/
  trimAt : Option Nat
  /-- How many fields may still be made, if there is a bound. -/
  left : Option Nat
  /-- The bounds of the fields, the last one first. -/
  fields : List (Nat × Nat)

namespace Splitting

/-- White space that separates fields if the separators do not say otherwise. -/
def blanks : Bytes := [' ', '\t', '\n']

/-- Whether an atom is one of some bytes, or is zero. -/
def isAmong (separators : Bytes) (a : Atom) : Bool :=
  match a with
  | .byte c _ => c == '\x00' || separators.contains c
  | .quote => false

/-- A splitting after the atom at a place. `keepsBlank` says that zeros are the only separators
there, or were in front of it. -/
def next (separators : Bytes) (keepsBlank : Bool) (s : Splitting) (place : Nat) (a : Atom) :
    Splitting :=
  let isSeparator := isAmong separators a
  let isBlank := isSeparator && isAmong blanks a
  if s.left == some 0 then
    if isBlank then { s with trimAt := s.trimAt <|> some place }
    else
      { s with
        trimAt := if isSeparator && s.inBlank then s.trimAt else none
        inBlank := false }
  else
    let place := if s.inBlank && isSeparator then place + 1 else place
    let start := if s.inBlank then place else s.start
    if s.inBlank && isBlank then { s with start }
    else if isSeparator && !s.inBlank then
      let inBlank := if keepsBlank then s.inBlank else isBlank
      if place == start && inBlank then { s with start := place + 1, inBlank := false }
      else
        match s.left with
        | some 1 => { s with start, inBlank, left := some 0, trimAt := some place }
        | left =>
          { s with
            start := place + 1
            inBlank
            left := left.map (· - 1)
            fields := (start, place) :: s.fields }
    else { s with start, inBlank := false }

def region (separators : Bytes) (atoms : Array Atom) (afterZeros : Bool) (s : Splitting)
    (r : Region) : Splitting :=
  let separators := if r.zeroOnly then [] else separators
  (List.range' r.start (r.stop - r.start)).foldl
    (fun s place => next separators (afterZeros || r.zeroOnly) s place atoms[place]!)
    { s with inBlank := false }

def regions (separators : Bytes) (atoms : Array Atom) (afterZeros : Bool) (s : Splitting) :
    List Region → Splitting × Bool
  | [] => (s, afterZeros)
  | r :: rest => regions separators atoms r.zeroOnly (region separators atoms afterZeros s r) rest

end Splitting

/-- The fields of an expanded word, at most so many if there is a bound. -/
def Expanded.fields (separators : Bytes) (bound : Option Nat) (e : Expanded) : List (List Atom) :=
  let (s, endsInZeros) := Splitting.regions separators e.atoms false ⟨0, false, none, bound, []⟩
    e.regions.reverse
  let piece (bounds : Nat × Nat) : List Atom := (e.atoms.extract bounds.1 bounds.2).toList
  let last := piece (s.start, (s.trimAt.getD e.atoms.size))
  let made := s.fields.reverse.map piece
  if endsInZeros then made ++ [piece (s.start, e.atoms.size)]
  else if last.isEmpty then made
  else made ++ [last]

end StepScript.Shell
