/-!
# Line marks

While a script runs, one line of it is **marked**: as the one that is executing, or as the one that
failed. A view answers a request for a mark with what became of it.
-/

set_option autoImplicit false

namespace StepScript

/-- What a mark says about its line. -/
inductive MarkKind where
  | executing | error
deriving DecidableEq

/-- A mark on a line of a script. -/
structure LineMark where
  /-- The number of the line, from one. -/
  line : Nat
  kind : MarkKind
deriving DecidableEq

/-- What became of a request for a mark. -/
inductive MarkOutcome where
  /-- The mark is shown now. -/
  | applied
  /-- The mark was shown already. -/
  | unchanged
  /-- The line is no command line, or an error on it is not to be hidden. -/
  | ignored
deriving DecidableEq

/-- Why a mark does not take the place of the current one. An error on a line is not hidden by the
news that the line is executing. -/
def LineMark.refusal? (current : Option LineMark) (mark : LineMark) : Option MarkOutcome :=
  match current with
  | none => none
  | some old =>
    if old = mark then some .unchanged
    else if old.line = mark.line ∧ old.kind = .error ∧ mark.kind = .executing then some .ignored
    else none

end StepScript
