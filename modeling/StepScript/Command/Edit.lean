import StepScript.Command.Basic
import StepScript.EditError

/-!
# Editing one parameter

`withParam` sets a named parameter of a command. An empty value removes the last parameter, and a
value past the end fills the gap with defaults. A value is refused if a parameter list would not
read it back as one parameter.
-/

set_option autoImplicit false

namespace StepScript

open Text

/-- Whether a text reads back as one parameter, where `depth` braces are open: its braces match, and
it holds no closing bracket and no comma outside braces. -/
def fitsListFrom (depth : Nat) : List Char → Bool
  | [] => depth == 0
  | c :: s =>
    if c = '{' then fitsListFrom (depth + 1) s
    else if c = '}' then depth != 0 && fitsListFrom (depth - 1) s
    else if c = ']' then false
    else if c = ',' ∧ depth = 0 then false
    else fitsListFrom depth s

/-- Whether a text reads back as one parameter of a list. -/
def fitsList (s : List Char) : Bool :=
  fitsListFrom 0 s

/-- The defaults of a run of definitions, all of which must have one. -/
def defaultsOf : List ParamDef → Except EditError (List Parameter)
  | [] => .ok []
  | d :: defs =>
    match d.default with
    | none => .error (.missingPrecedingParam d.name)
    | some s =>
      match defaultsOf defs with
      | .error e => .error e
      | .ok params => .ok (Parameter.ofText s :: params)

namespace Command

/-- A command without the parameter at `index`, which must be the last one or past the end. -/
def removeParam (c : Command) (index : Nat) (d : ParamDef) : Except EditError Command :=
  if index + 1 < c.params.length then .error (.emptyParam d.name)
  else .ok { c with params := c.params.take index }

def setParam (c : Command) (index : Nat) (d : ParamDef) (value : List Char) :
    Except EditError Command :=
  if !fitsList value then .error (.invalidParamValue d.name value)
  else
    match defaultsOf ((c.keyword.params.take index).drop c.params.length) with
    | .error e => .error e
    | .ok gap =>
      let params := c.params ++ gap
      if index < params.length then
        .ok { c with params := params.set index (Parameter.ofText value) }
      else .ok { c with params := params ++ [Parameter.ofText value] }

def withParam (c : Command) (name value : List Char) : Except EditError Command :=
  match c.keyword.params.zipIdx.find? fun (d, _) => d.name == name with
  | none => .error (.unknownParam c.keyword name)
  | some (d, index) =>
    match trim value with
    | [] => c.removeParam index d
    | trimmed => c.setParam index d trimmed

end Command

end StepScript
