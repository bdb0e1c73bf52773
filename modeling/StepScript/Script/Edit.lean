import StepScript.Command.Edit
import StepScript.Script.Parse

/-!
# Edits of a script

Adding, removing, moving and changing commands, as changes of the text. Every edit touches the lines
that it has to and leaves all others as they are.
-/

set_option autoImplicit false

namespace StepScript.Script

open Text

variable (lang : Language)

/-! ## Appending -/

/-- A script with one more line. A last line feed stays the last character. -/
def pushLine (script line : List Char) : List Char :=
  if script.isEmpty then line
  else if script.getLast? = some '\n' then script ++ line ++ ['\n']
  else script ++ '\n' :: line

/-- The indentation of a command behind the given command lines: a tab, four spaces or nothing, by
the first character of the last one. -/
def appendIndent (lines : List CommandLine) : List Char :=
  match lines.getLast? with
  | none => []
  | some l =>
    match l.text.head? with
    | some '\t' => ['\t']
    | some ' ' => [' ', ' ', ' ', ' ']
    | _ => []

/-- A script with a command at its end, behind a marker. -/
def append (script : List Char) (c : Command) : List Char :=
  let line := appendIndent (commandLines lang script) ++ c.toLine
  let start := if hasMarker lang script then script else pushLine script lang.marker
  pushLine start line

/-! ## Edits at an index -/

def commandLine (script : List Char) (index : Nat) : Except EditError CommandLine :=
  match (commandLines lang script)[index]? with
  | some l => .ok l
  | none => .error (.indexOutOfRange index (count lang script))

def mapLines (f : List (List Char) → List (List Char)) (script : List Char) : List Char :=
  joinLines (f (splitLines script))

/-- A script with a command in front of the command with the given index, and indented like it. -/
def insert (script : List Char) (c : Command) (index : Nat) : Except EditError (List Char) :=
  if index = count lang script then .ok (append lang script c)
  else
    match commandLine lang script index with
    | .error e => .error e
    | .ok l =>
      .ok (mapLines (fun lines => lines.insertIdx l.index (indentation l.text ++ c.toLine)) script)

def remove (script : List Char) (index : Nat) : Except EditError (List Char) :=
  match commandLine lang script index with
  | .error e => .error e
  | .ok l => .ok (mapLines (fun lines => lines.eraseIdx l.index) script)

/-- Where the line of a command stands once the line with the index `gone` is taken out. -/
def CommandLine.indexWithout (gone : Nat) (l : CommandLine) : Nat :=
  if gone < l.index then l.index - 1 else l.index

/-- A script in which the line of the command `start` is taken out and put in front of the command
that had the index `target`. There is nothing to do if the two are the same, or if there is no such
command. -/
def reorder (script : List Char) (start target : Nat) : Option (List Char) :=
  let lines := commandLines lang script
  match lines[start]? with
  | none => none
  | some moved =>
    if start = target ∨ lines.length ≤ target then none
    else
      let next := (lines.eraseIdx start)[if start < target then target - 1 else target]?
      let place := (next.map (CommandLine.indexWithout moved.index)).getD moved.index
      some (mapLines (fun ls => (ls.eraseIdx moved.index).insertIdx place moved.text) script)

/-- A script in which one parameter of one command is changed. The line keeps its indentation. -/
def updateParam (script : List Char) (index : Nat) (name value : List Char) :
    Except EditError (List Char) :=
  match commandLine lang script index with
  | .error e => .error e
  | .ok l =>
    match parseLine lang l.text l.number with
    | none => .error (.indexOutOfRange index (count lang script))
    | some c =>
      match c.withParam name value with
      | .error e => .error e
      | .ok c => .ok (mapLines (fun ls => ls.set l.index (indentation l.text ++ c.toLine)) script)

end StepScript.Script
