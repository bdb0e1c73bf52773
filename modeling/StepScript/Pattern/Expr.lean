import StepScript.Pattern.CharSet

/-!
# Patterns

The trees that patterns are read as.
-/

set_option autoImplicit false

namespace StepScript.Pattern

inductive Expr where
  /-- Nothing at all. -/
  | empty
  /-- One character of a set. -/
  | char (set : CharSet)
  /-- The start of the text. -/
  | textStart
  /-- The end of the text. -/
  | textEnd
  /-- One pattern after another. -/
  | seq (a b : Expr)
  /-- One pattern, or else another. -/
  | alt (a b : Expr)
  /-- A pattern at least `least` times, and at most `most` times if that is given. A greedy one
  takes as many turns as it can. -/
  | rep (a : Expr) (least : Nat) (most : Option Nat) (greedy : Bool)
  /-- A pattern whose match is remembered under a number. -/
  | group (number : Nat) (a : Expr)
deriving DecidableEq

/-- Whether every match of a pattern has at least one character. -/
def Expr.consumes : Expr → Bool
  | .empty | .textStart | .textEnd => false
  | .char _ => true
  | .seq a b => a.consumes || b.consumes
  | .alt a b => a.consumes && b.consumes
  | .rep a least _ _ => least != 0 && a.consumes
  | .group _ a => a.consumes

end StepScript.Pattern
