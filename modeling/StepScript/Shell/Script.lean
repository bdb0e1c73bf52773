import StepScript.Shell.Grammar
import StepScript.Shell.State

/-!
# Running scripts

A script is run line by line: a line is read with what aliases stand for by then, and run before the
next one is read. Actions for signals are scripts too, and so is the action for the end of a shell.

How a command is run comes from outside.
-/

set_option autoImplicit false

namespace StepScript.Shell

namespace Act

/-! ## Texts -/

def readLine (r : Reading) : Act (Line × Reading) := do
  let s ← shell
  match Parse.nextLine { r with documents := s.documents, aliases := s.aliases } with
  | .error message r =>
    change fun s => { s with line := r.line, linesRead := r.line, documents := r.documents }
    fault ("Syntax error: ".toList ++ message)
  | .ok line r =>
    change fun s => { s with linesRead := r.line, documents := r.documents }
    return (line, r)

/-- The rest of a script, given the status of what was run of it. A part of a script is passed over
if commands are. -/
def runLines (run : Runner) (role : Role) : Nat → Nat → Reading → Act Nat
  | 0, _, _ => throw .bound
  | fuel + 1, status, r => do
    let (line, r) ← readLine r
    match line with
    | .endOfFile => return status
    | .nothing => runLines run role fuel status r
    | .command c =>
      let atEnd := r.pushedBack && r.token == .endOfFile
      let status ← run { role with last := role.last && atEnd } c
      if (← shell).skip ≠ .nothing then return status else runLines run role fuel status r

/-- A script is run. The answer is the status of its last command. -/
def runText (run : Runner) (role : Role) (text : Bytes) : Act Nat := do
  let before := (← shell).linesRead
  let status ← runLines run role Parse.limit 0 (.start text #[] [])
  change fun s => { s with linesRead := before }
  return status

def runFile (run : Runner) (text : Bytes) : Act Nat := do
  let status ← runText run .step text
  change fun s =>
    { s with
      skip := match s.skip with
        | .return' _ => .nothing
        | skip => skip }
  return status

/-! ## Signals -/

/-- The action for a signal that arrived is run, unless commands are passed over. The status from
before is the status again behind it, unless a status was given. -/
def runAction (run : Runner) (status n : Nat) : Act Unit := do
  if (← shell).skip = .nothing then
    change fun s => { s with arrived := s.arrived.filter (· != n) }
    match (← shell).traps.lookup n with
    | none => return
    | some action =>
      let _ ← runText run .step action
      if (← shell).skip ≠ .return' true then setStatus status

def runActions (run : Runner) : Act Unit := do
  receive
  let s ← shell
  if s.arrived.isEmpty then return
  let status := s.endStatus.getD s.status
  change fun s => { s with endStatus := some status }
  (s.arrived.mergeSort (· ≤ ·)).forM (runAction run status)
  change fun now => { now with endStatus := s.endStatus }

/-! ## Ends -/

/-- The action for the end of a shell runs, which then ends with the status from before, unless the
action settles another end. -/
def runEndAction (run : Runner) : Act Ending := do
  let status := (← shell).status
  match (← shell).traps.lookup 0 with
  | none => return .ofStatus status
  | some action =>
    change fun s =>
      { s with
        traps := s.traps.filter (·.1 != 0)
        skip := .nothing
        loops := 0
        command := none
        endStatus := some status }
    match ← attempt (runText run .step action) with
    | .ok _ => return .ofStatus status
    | .error .exit => return .ofStatus ((← shell).endStatus.getD status)
    | .error (.signal n) => return .killed n
    | .error .bound => throw .bound
    | .error _ => return .ofStatus (← shell).status

/-- The end of a shell whose last step came out as given: its action for the end is run, unless a
signal or another program ended it. -/
def finish (run : Runner) (outcome : Except Stop Unit) : Act Ending := do
  match outcome with
  | .error .bound => throw .bound
  | .error (.signal n) => return .killed n
  | .error .replaced => return .ofStatus (← shell).status
  | .error .exit =>
    change fun s => { s with status := s.endStatus.getD s.status }
    runEndAction run
  | _ => runEndAction run

end Act

end StepScript.Shell
