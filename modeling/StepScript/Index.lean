/-!
# Indices

Indices of commands are 64-bit words. The index behind a given one is a checked sum: behind the last
word there is none, and a program that asks for it breaks off.
-/

set_option autoImplicit false

namespace StepScript

def lastIndex : Nat :=
  UInt64.size - 1

/-- The index after another one, unless it is beyond the range. -/
def nextIndex? (i : Nat) : Option Nat :=
  if i + 1 < UInt64.size then some (i + 1) else none

theorem nextIndex?_of_lt {i : Nat} (h : i + 1 < UInt64.size) : nextIndex? i = some (i + 1) :=
  if_pos h

theorem eq_of_nextIndex?_eq_some {i j : Nat} (h : nextIndex? i = some j) : j = i + 1 := by
  unfold nextIndex? at h
  split at h
  · exact (Option.some.inj h).symm
  · cases h

end StepScript
