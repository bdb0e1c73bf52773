import StepScript.Language.Keyword

/-!
# Edit errors

Why an edit of a script is refused.
-/

set_option autoImplicit false

namespace StepScript

/-- The cause of a refused edit. -/
inductive EditError where
  /-- A script is running. -/
  | locked
  /-- Another block edit is going on. -/
  | busy
  /-- There is no command with that index. -/
  | indexOutOfRange (index count : Nat)
  /-- The keyword has no parameter of that name. -/
  | unknownParam (keyword : Keyword) (param : List Char)
  /-- A parameter in front is missing and has no default. -/
  | missingPrecedingParam (param : List Char)
  /-- The value would be read back as something else. -/
  | invalidParamValue (param value : List Char)
  /-- Only the last parameter can be removed. -/
  | emptyParam (param : List Char)
  /-- The index behind the last one was asked for. It is no refusal: the program breaks off, and the
  caller gets no answer. -/
  | overflow
deriving DecidableEq

def EditError.message : EditError → String
  | .locked => "editor is locked while a script is running"
  | .busy => "another block edit is in progress"
  | .indexOutOfRange index count =>
    "command index " ++ toString index ++ " is out of range (script has " ++ toString count ++
      " commands)"
  | .unknownParam keyword param =>
    "command " ++ String.ofList keyword.spelling ++ " has no parameter named '" ++
      String.ofList param ++ "'"
  | .missingPrecedingParam param =>
    "parameter '" ++ String.ofList param ++ "' must be set before later parameters"
  | .invalidParamValue param value =>
    "value '" ++ String.ofList value ++ "' for parameter '" ++ String.ofList param ++
      "' would not survive re-parsing"
  | .emptyParam param => "parameter '" ++ String.ofList param ++ "' cannot be empty"
  | .overflow => "attempt to add with overflow"

end StepScript
