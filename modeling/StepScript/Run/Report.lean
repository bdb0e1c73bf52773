import StepScript.Run.Context

/-!
# Reports

What a run tells its observer while it goes on, and how it ended.
-/

set_option autoImplicit false

namespace StepScript

inductive Outcome where
  /-- Every step succeeded. -/
  | completed (steps : Nat)
  /-- The step on a line failed, and no step behind it was sent. -/
  | failed (line : Nat) (message : List Char)
  /-- The run was stopped, after the step on the given line if any step was sent. -/
  | cancelled (lastLine : Option Nat)
deriving DecidableEq

/-! ## Notices -/

inductive NoticeLevel where
  | info | success | warning | error
deriving DecidableEq

/-- Something to show to the user. -/
inductive Notice where
  /-- One line is run on its own. -/
  | lineStarted (line : Nat) (text : List Char)
  | completed
  | aborted
  | rejected (cause : Rejection)
  | failed (message : List Char)
deriving DecidableEq

namespace Notice

/-- The level of a notice. Whoever is too early is only warned. -/
def level : Notice → NoticeLevel
  | .lineStarted .. => .info
  | .completed => .success
  | .aborted => .warning
  | .rejected .busy => .warning
  | .rejected _ => .error
  | .failed _ => .error

/-- The wording of a notice, where `elapsed` tells how long the run took. -/
def message (elapsed : String) : Notice → List Char
  | .lineStarted line text => ("line " ++ toString line ++ ": ").toList ++ text
  | .completed => ("script completed in " ++ elapsed).toList
  | .aborted => ("script aborted after " ++ elapsed).toList
  | .rejected cause => cause.message.toList
  | .failed message => message

end Notice

/-! ## Observations -/

/-- What an observer is told. Steps are counted from one. -/
inductive Observation where
  | scriptStarted (total : Nat)
  /-- A step is about to be sent. -/
  | stepStarted (step total line : Nat) (text : List Char)
  | stepSucceeded (step : Nat)
  | stepFailed (step : Nat) (message : List Char)
  | scriptFinished (outcome : Outcome)
  | notice (n : Notice)
deriving DecidableEq

end StepScript
