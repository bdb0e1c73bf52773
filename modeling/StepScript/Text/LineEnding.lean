/-!
# Line endings

A file may end its lines with a line feed or with a carriage return and a line feed. In memory every
line ends with a line feed alone.
-/

set_option autoImplicit false

namespace StepScript

/-- How the lines of a file end. -/
inductive LineEnding where
  | lf | crlf
deriving DecidableEq

namespace LineEnding

/-- The ending of a text: CRLF as soon as one line ends so. -/
def detect : List Char → LineEnding
  | '\r' :: '\n' :: _ => .crlf
  | _ :: s => detect s
  | [] => .lf

/-- A text whose lines all end with a line feed alone. A lone carriage return ends a line too. -/
def normalize : List Char → List Char
  | '\r' :: '\n' :: s => '\n' :: normalize s
  | '\r' :: s => '\n' :: normalize s
  | c :: s => c :: normalize s
  | [] => []

def toCrlf : List Char → List Char
  | [] => []
  | c :: s => if c = '\n' then '\r' :: '\n' :: toCrlf s else c :: toCrlf s

def apply : LineEnding → List Char → List Char
  | .lf, s => s
  | .crlf, s => toCrlf s

/-! ## Laws -/

/-- A normal text has no carriage return. -/
theorem not_mem_normalize (s : List Char) : '\r' ∉ normalize s := by
  fun_induction normalize s with
  | case1 s ih => simpa using ih
  | case2 s _ ih => simpa using ih
  | case3 c s _ hc ih =>
    simp only [List.mem_cons, not_or]
    exact ⟨fun h => hc h.symm, ih⟩
  | case4 => simp

/-- A text without carriage returns is normal already. -/
theorem normalize_of_not_mem {s : List Char} (h : '\r' ∉ s) : normalize s = s := by
  fun_induction normalize s <;> simp_all

theorem normalize_cons_of_ne {c : Char} (h : c ≠ '\r') (s : List Char) :
    normalize (c :: s) = c :: normalize s := by
  rw [normalize] <;> simp_all

/-- A normal text is read back, whichever ending it was written with. -/
theorem normalize_apply (ending : LineEnding) {s : List Char} (h : '\r' ∉ s) :
    normalize (ending.apply s) = s := by
  cases ending with
  | lf => exact normalize_of_not_mem h
  | crlf =>
    show normalize (toCrlf s) = s
    induction s with
    | nil => rfl
    | cons c s ih =>
      rw [List.mem_cons, not_or] at h
      rw [toCrlf]
      split
      · next hc => rw [normalize, ih h.2, hc]
      · rw [normalize_cons_of_ne (Ne.symm h.1), ih h.2]

end LineEnding

end StepScript
