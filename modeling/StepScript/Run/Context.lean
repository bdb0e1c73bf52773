import StepScript.Text.Blank

/-!
# Where scripts run

A script runs on a device and for a project, and both must be chosen before. A run that may not
start is **rejected**: it has a cause, and changes nothing.
-/

set_option autoImplicit false

namespace StepScript

inductive Rejection where
  /-- Another run is going on. -/
  | busy
  | missingDevice
  | missingProject
  /-- The script has no command lines. -/
  | noCommands
  /-- The line to be run is blank. -/
  | emptyLine
deriving DecidableEq

def Rejection.message : Rejection → String
  | .busy => "a script is already running"
  | .missingDevice => "no device selected"
  | .missingProject => "no project open"
  | .noCommands => "script has no executable commands"
  | .emptyLine => "line is empty"

/-- What a run is started with. -/
structure RunContext where
  device : Option (List Char)
  project : Option (List Char)
deriving DecidableEq

/-- Where the lines of a run are sent to. -/
structure Target where
  device : List Char
  project : List Char
deriving DecidableEq

/-- The target of a run. The name of the device must not be blank, and that of the project must not
be empty. -/
def RunContext.target (ctx : RunContext) : Except Rejection Target :=
  match ctx.device.filter fun s => !Text.allBlank s with
  | none => .error .missingDevice
  | some device =>
    match ctx.project.filter fun s => !s.isEmpty with
    | none => .error .missingProject
    | some project => .ok ⟨device, project⟩

end StepScript
