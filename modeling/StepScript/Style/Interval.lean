/-!
# Style intervals

A style is shown on a run of characters, from `start` up to but not including `stop`.
-/

set_option autoImplicit false

namespace StepScript

/-- A style on a run of characters. -/
structure Interval where
  /-- The first character. -/
  start : Nat
  /-- The character behind the last one. -/
  stop : Nat
  /-- The style shown. -/
  style : Nat
deriving DecidableEq

namespace Interval

/-- Whether each of two intervals starts before the other one stops. -/
def overlaps (a b : Interval) : Bool :=
  a.start < b.stop && b.start < a.stop

/-- Whether an interval may stand in front of another: by its start, then by its stop. -/
def precedes (a b : Interval) : Bool :=
  a.start < b.start || (a.start == b.start && a.stop ≤ b.stop)

/-- Intervals in order. Those with the same ends stay as they are. -/
def sort (xs : List Interval) : List Interval :=
  xs.mergeSort precedes

end Interval

end StepScript
