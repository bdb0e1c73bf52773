import StepScript.Language.Basic
import StepScript.Text.Lines

/-!
# Lines of a script

Each line of a script has a **class**, which hangs on the line itself and on whether a marker line
came before it. The commands of a script are its command lines, in order; everything that counts
commands counts these lines.

Main statement: `texts_classify` — classifying leaves the lines as they are.
-/

set_option autoImplicit false

namespace StepScript

open Text

/-- How a line of a script is treated. -/
inductive LineClass where
  /-- A line before the first marker. -/
  | header
  /-- A marker of the steps section. -/
  | marker
  /-- A blank line among the steps. -/
  | blank
  /-- A comment line among the steps. -/
  | comment
  /-- A line that starts with a keyword. -/
  | command (k : Keyword)
  /-- Any other line among the steps, which is skipped. -/
  | stray
deriving DecidableEq

/-- A command line at its place in the script. -/
structure CommandLine where
  /-- How many lines come before it. -/
  index : Nat
  /-- The line as it is. -/
  text : List Char
  /-- The keyword it starts with. -/
  keyword : Keyword
deriving DecidableEq

def CommandLine.number (l : CommandLine) : Nat :=
  l.index + 1

namespace Script

variable (lang : Language)

/-! ## Classes -/

/-- The class of a trimmed line among the steps that is no marker. -/
def stepClass (line : List Char) : LineClass :=
  if line.isEmpty then .blank
  else if lang.isComment line then .comment
  else
    match Keyword.atStart? line with
    | some (k, _) => .command k
    | none => .stray

/-- The lines with their classes, where `inSteps` says whether a marker came before. -/
def classifyFrom (inSteps : Bool) : List (List Char) → List (List Char × LineClass)
  | [] => []
  | line :: rest =>
    if lang.isMarker (trim line) then (line, .marker) :: classifyFrom true rest
    else if inSteps then (line, stepClass lang (trim line)) :: classifyFrom true rest
    else (line, .header) :: classifyFrom false rest

def classify (script : List Char) : List (List Char × LineClass) :=
  classifyFrom lang false (splitLines script)

def hasMarker (script : List Char) : Bool :=
  (splitLines script).any fun line => lang.isMarker (trim line)

/-! ## Command lines -/

/-- The command lines among classified lines, the first of which has the given index. -/
def commandLinesFrom (index : Nat) : List (List Char × LineClass) → List CommandLine
  | [] => []
  | (text, .command k) :: rest => ⟨index, text, k⟩ :: commandLinesFrom (index + 1) rest
  | _ :: rest => commandLinesFrom (index + 1) rest

def commandLines (script : List Char) : List CommandLine :=
  commandLinesFrom 0 (classify lang script)

def count (script : List Char) : Nat :=
  (commandLines lang script).length

/-! ## Laws -/

theorem texts_classifyFrom (inSteps : Bool) (lines : List (List Char)) :
    (classifyFrom lang inSteps lines).map Prod.fst = lines := by
  induction lines generalizing inSteps with
  | nil => rfl
  | cons line rest ih =>
    unfold classifyFrom
    split
    · simp [ih]
    · split <;> simp [ih]

@[simp] theorem texts_classify (script : List Char) :
    (classify lang script).map Prod.fst = splitLines script :=
  texts_classifyFrom lang false _

end Script

end StepScript
