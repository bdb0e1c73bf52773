import StepScript.Run.Context
import StepScript.Run.Reply
import StepScript.Shell.Launch

/-!
# Devices behind a program

A device may be reached by a program, which is started once for every line. It gets the line as its
last argument and writes a verdict; how it exits makes no difference. Only a refresh is judged by
the status with which the program exits.
-/

set_option autoImplicit false

namespace StepScript

/-! ## Programs -/

/-- What a program leaves behind, or why it does not start. -/
def launch (program : List Char) (args : List (List Char)) : Except DeviceError Shell.Outcome :=
  if (program :: args).any (·.contains '\x00') then
    .error (.spawn program "nul byte found in provided data".toList)
  else
    match Shell.launch program args with
    | .error fault => .error (.spawn program fault.message.toList)
    | .ok outcome => .ok outcome

/-- What the system says of how a process ended. One signal has a name that shells do not know. -/
def endingText : Shell.Ending → String
  | .exited status => "exit status: " ++ toString status
  | .killed n =>
    let name := if n = 16 then "STKFLT" else String.ofList (Shell.Signal.name n)
    "signal: " ++ toString n ++ (if 0 < n ∧ n < 32 then " (SIG" ++ name ++ ")" else "")

/-! ## Devices -/

structure ProcessDevice where
  program : List Char
  /-- Arguments in front of all others. -/
  baseArgs : List (List Char)
  /-- Arguments for a refresh; if there are none, nothing is ever refreshed. -/
  refreshArgs : List (List Char)

namespace ProcessDevice

def lineArgs (d : ProcessDevice) (target : Target) (line : List Char) : List (List Char) :=
  d.baseArgs ++
    ["--project".toList, target.project, "--device".toList, target.device, "run".toList,
      "step".toList, line]

/-- The verdict in what a program wrote, with blanks around it. -/
def verdictOf (written : List UInt8) : Reply :=
  let output := Text.Utf8.decodeLossy written
  match Verdict.ofText? (Text.trim output) with
  | some v => .ok v
  | none => .error (.invalidOutput "no verdict".toList output)

def dispatch (d : ProcessDevice) (target : Target) (line : List Char) : Reply :=
  match launch d.program (d.lineArgs target line) with
  | .error e => .error e
  | .ok outcome => verdictOf outcome.written

def refresh (d : ProcessDevice) : Except DeviceError Unit :=
  if d.refreshArgs.isEmpty then .ok ()
  else
    match launch d.program (d.baseArgs ++ d.refreshArgs) with
    | .error e => .error e
    | .ok outcome =>
      if outcome.ending = .exited 0 then .ok ()
      else
        .error (.io ("screen refresh exited with " ++ endingText outcome.ending).toList)

end ProcessDevice

end StepScript
