import StepScript.Script.Line
import StepScript.Text.Cut

/-!
# The header of a script

The lines before the steps name the test case and the script, and give **details** as pairs of a key
and a value. A label or a key ends at a colon, in its plain or in its full-width form.
-/

set_option autoImplicit false

namespace StepScript

open Text

/-- What the lines before the steps say. -/
structure Header where
  /-- The test case. -/
  caseId : Option (List Char)
  /-- The name of the script. -/
  scriptName : Option (List Char)
  /-- The details, each key once, in the order in which the keys first appear. -/
  details : List (List Char × List Char)
deriving DecidableEq

namespace Header

def empty : Header := ⟨none, none, []⟩

def put (key value : List Char) : List (List Char × List Char) → List (List Char × List Char)
  | [] => [(key, value)]
  | (k, v) :: rest => if k = key then (k, value) :: rest else (k, v) :: put key value rest

def nonEmpty (s : List Char) : Option (List Char) :=
  if s.isEmpty then none else some s

/-! ## Lines of the header -/

/-- What follows a label and a colon on a trimmed line. -/
def labelValue? (line label : List Char) : Option (List Char) :=
  (after? label line).bind fun rest =>
    ((after? [':'] (trimStart rest)) <|> (after? ['：'] (trimStart rest))).map trim

/-- A line cut at its first plain colon, or at its first full-width colon if it has no plain one. -/
def cutPair? (line : List Char) : Option (List Char × List Char) :=
  cutAt ':' line <|> cutAt '：' line

/-- A header that is being read, and whether the details are open. -/
structure Reading where
  header : Header
  inDetails : Bool

def Reading.next (lang : Language) (r : Reading) (line : List Char) : Reading :=
  if line.isEmpty || lang.isComment line then r
  else
    match labelValue? line lang.caseLabel, labelValue? line lang.scriptNameLabel,
        labelValue? line lang.detailsLabel with
    | some value, _, _ => ⟨{ r.header with caseId := nonEmpty value }, false⟩
    | none, some value, _ => ⟨{ r.header with scriptName := nonEmpty value }, false⟩
    | none, none, some _ => { r with inDetails := true }
    | none, none, none =>
      match r.inDetails, cutPair? line with
      | true, some (key, value) =>
        { r with
          header := { r.header with details := put (trim key) (trim value) r.header.details } }
      | _, _ => r

/-- The lines before the first marker. -/
def lines (lang : Language) (script : List Char) : List (List Char) :=
  (splitLines script).takeWhile fun line => !lang.isMarker (trim line)

end Header

def Script.header (lang : Language) (script : List Char) : Header :=
  let start : Header.Reading := ⟨.empty, false⟩
  ((Header.lines lang script).foldl (fun r line => r.next lang (trim line)) start).header

end StepScript
