import StepScript.Parameter

/-!
# Commands

A **command** is a keyword with its parameters, as found on a line of a script or ready to be
written to one. `toLine` is the canonical form in which the library writes commands.
-/

set_option autoImplicit false

namespace StepScript

structure Command where
  /-- The number of the line it stands on, from one; zero if it stands on none. -/
  line : Nat
  /-- The verb. -/
  keyword : Keyword
  /-- The parameters, in order. -/
  params : List Parameter
deriving DecidableEq

namespace Command

/-- A command that stands on no line, with the parameters written as the given texts. -/
def ofTexts (keyword : Keyword) (texts : List (List Char)) : Command :=
  ⟨0, keyword, Parameter.ofTexts texts⟩

def leadingDefaults : List ParamDef → List (List Char)
  | [] => []
  | d :: defs =>
    match d.default with
    | some s => s :: leadingDefaults defs
    | none => []

/-- A new command. Its defaults end at the first parameter that has none, so that every parameter
keeps its position. -/
def withDefaults (keyword : Keyword) : Command :=
  ofTexts keyword (leadingDefaults keyword.params)

def param? (c : Command) (name : List Char) : Option Parameter :=
  (c.keyword.paramIndex? name).bind fun i => c.params[i]?

def sameContent (c d : Command) : Bool :=
  c.keyword == d.keyword && c.params == d.params

/-- Raw parameters with a comma and a space between them. -/
def joinRaws : List Parameter → List Char
  | [] => []
  | [p] => p.raw
  | p :: params => p.raw ++ ',' :: ' ' :: joinRaws params

def toLine (c : Command) : List Char :=
  if c.params.isEmpty then c.keyword.spelling
  else c.keyword.spelling ++ ' ' :: '[' :: joinRaws c.params ++ [']']

/-! ## Laws -/

theorem sameContent_iff {c d : Command} :
    c.sameContent d = true ↔ c.keyword = d.keyword ∧ c.params = d.params := by
  simp [sameContent]

end Command

end StepScript
