import StepScript.Command.Basic
import StepScript.Script.Comment
import StepScript.Script.Line

/-!
# Reading a script

`parseLine` reads one line as a command, `parse` all the command lines of a script. What stands on a
line after the keyword matters only as a bracketed list that runs to the end of the line.
-/

set_option autoImplicit false

namespace StepScript.Script

open Text

/-- What stands between the first opening bracket of a text and a closing bracket at its end. -/
def listBody? (rest : List Char) : Option (List Char) :=
  (cutAt '[' rest).bind fun (_, inner) => dropLast? ']' inner

def paramsOf (rest : List Char) : List Parameter :=
  ((listBody? rest).map Parameter.ofList).getD []

/-- The command on a line, whatever lines surround it. -/
def parseLine (lang : Language) (line : List Char) (number : Nat) : Option Command :=
  (Keyword.atStart? (trim (lang.code line))).map fun (k, rest) =>
    ⟨number, k, paramsOf (trimStart rest)⟩

def parse (lang : Language) (script : List Char) : List Command :=
  (commandLines lang script).filterMap fun l => parseLine lang l.text l.number

end StepScript.Script
