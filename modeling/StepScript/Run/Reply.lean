import StepScript.Verdict

/-!
# Replies

Whoever is asked to run a line replies with a verdict, or with an error where the device was not
reached. To a run any reply but a success is a failure with a message.
-/

set_option autoImplicit false

namespace StepScript

/-- Why a device gave no verdict. -/
inductive DeviceError where
  | io (message : List Char)
  /-- The program that talks to the device did not start. -/
  | spawn (program message : List Char)
  /-- That program wrote something that is no verdict; `output` is what it wrote. -/
  | invalidOutput (message output : List Char)
deriving DecidableEq

def DeviceError.message : DeviceError → List Char
  | .io message => "I/O error: ".toList ++ message
  | .spawn program message =>
    "failed to start `".toList ++ program ++ "`: ".toList ++ message
  | .invalidOutput message _ => "invalid collaborator output: ".toList ++ message

/-- What is replied to a request. -/
abbrev Reply := Except DeviceError Verdict

namespace Reply

def success : Reply := .ok .ok

def failure? : Reply → Option (List Char)
  | .ok v => if v.success then none else some v.failureText
  | .error e => some e.message

end Reply

end StepScript
