import StepScript.Language.Keyword
import StepScript.Text.Cut

/-!
# Parameters

A **parameter** is a raw text together with what that text means. The reading is total: a text that
is nothing else is free text. A parameter list is cut at the commas outside braces, and its blank
pieces are dropped.
-/

set_option autoImplicit false

namespace StepScript

open Text

/-! ## Values -/

/-- A reference to something on the screen. -/
inductive Locator where
  /-- A point. -/
  | coordinate (x y : UInt32)
  /-- A named element, matched against one attribute or against all of them. -/
  | element (name : List Char) (strategy : Option Strategy)
  /-- A named picture. -/
  | image (name : List Char)
deriving DecidableEq

inductive ParamValue where
  | locator (l : Locator)
  | strategy (t : Strategy)
  | number (n : UInt64)
  | direction (d : Direction)
  | state (a : AssertionState)
  | package (name : List Char)
  | text (s : List Char)
deriving DecidableEq

namespace ParamValue

def kind : ParamValue → ParamKind
  | .locator (.coordinate ..) => .coordinate
  | .locator (.image _) => .image
  | .locator (.element ..) => .locator
  | .strategy _ => .strategy
  | .number _ => .number
  | .direction _ => .direction
  | .state _ => .state
  | .package _ => .package
  | .text _ => .text

def locator? : ParamValue → Option Locator
  | .locator l => some l
  | _ => none

/-! ## Reading values -/

/-- Whether a text is a numeral: one or more of the digits 0 to 9. -/
def isNumeral (s : List Char) : Bool :=
  !s.isEmpty && s.all Char.isDigit

def numeralValue (s : List Char) : Nat :=
  s.foldl (fun n c => 10 * n + (c.toNat - '0'.toNat)) 0

/-- The pieces on either side of the only comma of a text. -/
def halves? (body : List Char) : Option (List Char × List Char) :=
  (cutAt ',' body).bind fun (x, y) => if ',' ∈ y then none else some (trim x, trim y)

/-- Whether the text between two braces is a coordinate: two numerals and a comma between them. -/
def isCoordinateBody (body : List Char) : Bool :=
  (halves? body).any fun (x, y) => isNumeral x && isNumeral y

def numeral32? (s : List Char) : Option UInt32 :=
  if h : numeralValue s < UInt32.size then some (UInt32.ofNatLT (numeralValue s) h) else none

def numeral64? (s : List Char) : Option UInt64 :=
  if h : numeralValue s < UInt64.size then some (UInt64.ofNatLT (numeralValue s) h) else none

def coordinate? (body : List Char) : Option Locator := do
  if !isCoordinateBody body then none
  let (x, y) ← halves? body
  return .coordinate (← numeral32? x) (← numeral32? y)

/-- A picture: a name in braces after an at sign. -/
def image? (raw : List Char) : Option ParamValue :=
  (between? ['@', '{'] '}' raw).map fun name => .locator (.image name)

/-- A text in braces: a point if it reads as one, else a named element. -/
def braced? (raw : List Char) : Option ParamValue :=
  (between? ['{'] '}' raw).map fun body =>
    .locator ((coordinate? body).getD (.element body none))

def qualified? (raw : List Char) : Option ParamValue := do
  let (front, tail) ← cutAtLast Strategy.mark raw
  let strategy ← Strategy.ofSpelling? tail
  let name ← between? ['{'] '}' front
  return .locator (.element name (some strategy))

def number? (raw : List Char) : Option ParamValue :=
  if isNumeral raw then (numeral64? raw).map .number else none

def strategy? (raw : List Char) : Option ParamValue :=
  ((after? [Strategy.mark] raw).bind Strategy.ofSpelling?).map .strategy

/-- Whether a text is a dotted identifier: an optional point, a letter, then letters, digits,
underscores and points, all of them ASCII. -/
def isPackage (raw : List Char) : Bool :=
  match (after? ['.'] raw).getD raw with
  | [] => false
  | c :: s => c.isAlpha && s.all fun d => d.isAlphanum || d == '_' || d == '.'

def package? (raw : List Char) : Option ParamValue :=
  if isPackage raw then some (.package raw) else none

/-- What a trimmed text means: the first reading that applies, and free text if none does. -/
def ofRaw (raw : List Char) : ParamValue :=
  (image? raw
    <|> braced? raw
    <|> qualified? raw
    <|> number? raw
    <|> (Direction.ofSpelling? raw).map ParamValue.direction
    <|> (AssertionState.ofSpelling? raw).map ParamValue.state
    <|> strategy? raw
    <|> package? raw).getD (.text raw)

end ParamValue

/-! ## Parameters -/

structure Parameter where
  /-- What the parameter means. -/
  value : ParamValue
  /-- How the parameter is written, without blanks at the ends. -/
  raw : List Char
deriving DecidableEq

namespace Parameter

def ofText (s : List Char) : Parameter :=
  ⟨ParamValue.ofRaw (trim s), trim s⟩

def kind (p : Parameter) : ParamKind :=
  p.value.kind

/-! ## Parameter lists -/

/-- The pieces of a text between the commas outside braces, where `depth` braces are open. -/
def segmentsFrom (depth : Nat) : List Char → List (List Char)
  | [] => [[]]
  | c :: s =>
    if c = ',' ∧ depth = 0 then [] :: segmentsFrom 0 s
    else
      let depth :=
        if c = '{' then depth + 1
        else if c = '}' then depth - 1
        else depth
      match segmentsFrom depth s with
      | [] => [[c]]
      | piece :: rest => (c :: piece) :: rest

def segments (inner : List Char) : List (List Char) :=
  segmentsFrom 0 inner

/-- The parameters of a list of texts; a blank text is no parameter. -/
def ofTexts (texts : List (List Char)) : List Parameter :=
  (texts.filter fun s => !allBlank s).map ofText

def ofList (inner : List Char) : List Parameter :=
  ofTexts (segments inner)

end Parameter

end StepScript
