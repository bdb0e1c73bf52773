import StepScript.Language.Basic

/-!
# Comments

A comment token starts a **comment** only where it stands outside braces and outside a bracketed
list, so that the token is plain data in a locator or in a parameter. A brace that closes nothing is
ignored, and brackets inside braces are data.

Main statements:

* `eq_of_cutComment` — the code and the comment make up the line;
* `cutComment_code` — the code in front of a comment holds no comment.
-/

set_option autoImplicit false

namespace StepScript

open Text

/-! ## Nesting -/

/-- Where a scan over a line stands: how many braces are open, and whether a list is open. -/
structure Nesting where
  /-- The number of open braces. -/
  depth : Nat
  /-- Whether a bracketed list is open. -/
  inList : Bool
deriving DecidableEq

namespace Nesting

/-- The nesting at the start of a line. -/
def outside : Nesting := ⟨0, false⟩

def next (n : Nesting) (c : Char) : Nesting :=
  if c = '{' then { n with depth := n.depth + 1 }
  else if c = '}' then { n with depth := n.depth - 1 }
  else if c = '[' ∧ n.depth = 0 then { n with inList := true }
  else if c = ']' ∧ n.depth = 0 then { n with inList := false }
  else n

def after (n : Nesting) (s : List Char) : Nesting :=
  s.foldl next n

def isOutside (n : Nesting) : Bool :=
  n.depth == 0 && !n.inList

end Nesting

def isDelimiter (c : Char) : Bool :=
  c == '{' || c == '}' || c == '[' || c == ']'

/-! ## Cutting a line at its comment -/

/-- Whether a comment starts at the head of a text, where the scan stands at `n`. -/
def startsComment (token : List Char) (n : Nesting) : List Char → Bool
  | [] => false
  | c :: s => n.isOutside && !isDelimiter c && (after? token (c :: s)).isSome

/-- The code and the comment of a text, where the scan stands at `n`. -/
def cutCommentFrom (token : List Char) (n : Nesting) : List Char → Option (List Char × List Char)
  | [] => none
  | c :: s =>
    if startsComment token n (c :: s) then some ([], c :: s)
    else (cutCommentFrom token (n.next c) s).map fun (code, comment) => (c :: code, comment)

namespace Language

variable (lang : Language)

/-- The code and the comment of a line, if it has a comment. -/
def cutComment (line : List Char) : Option (List Char × List Char) :=
  if lang.comment.isEmpty then none else cutCommentFrom lang.comment .outside line

def code (line : List Char) : List Char :=
  match lang.cutComment line with
  | some (code, _) => code
  | none => line

end Language

/-! ## Laws -/

theorem eq_of_cutCommentFrom {token : List Char} {n : Nesting} {s code comment : List Char}
    (h : cutCommentFrom token n s = some (code, comment)) :
    s = code ++ comment ∧ startsComment token (n.after code) comment = true := by
  induction s generalizing n code with
  | nil => simp [cutCommentFrom] at h
  | cons c s ih =>
    unfold cutCommentFrom at h
    split at h
    · next hs =>
      simp only [Option.some.injEq, Prod.mk.injEq] at h
      obtain ⟨rfl, rfl⟩ := h
      exact ⟨rfl, hs⟩
    · obtain ⟨⟨code', comment'⟩, hc, he⟩ := Option.map_eq_some_iff.1 h
      simp only [Prod.mk.injEq] at he
      obtain ⟨rfl, rfl⟩ := he
      obtain ⟨rfl, hn⟩ := ih hc
      exact ⟨rfl, hn⟩

/-- A comment that starts in a shorter text also starts in a longer one. -/
theorem startsComment_append {token : List Char} {n : Nesting} {s : List Char} (t : List Char)
    (h : startsComment token n s = true) : startsComment token n (s ++ t) = true := by
  cases s with
  | nil => simp [startsComment] at h
  | cons c s =>
    simp only [startsComment, Bool.and_eq_true] at h
    obtain ⟨hn, ha⟩ := h
    obtain ⟨rest, hr⟩ := Option.isSome_iff_exists.1 ha
    have : after? token (c :: s ++ t) = some (rest ++ t) := by
      rw [after?_eq_some, after?_eq_some.1 hr, List.append_assoc]
    simp only [List.cons_append] at this ⊢
    simp [startsComment, this, hn]

theorem cutCommentFrom_code {token : List Char} {n : Nesting} {s code comment : List Char}
    (h : cutCommentFrom token n s = some (code, comment)) :
    cutCommentFrom token n code = none := by
  induction s generalizing n code with
  | nil => simp [cutCommentFrom] at h
  | cons c s ih =>
    unfold cutCommentFrom at h
    split at h
    · simp only [Option.some.injEq, Prod.mk.injEq] at h
      rw [← h.1]
      rfl
    · next hs =>
      obtain ⟨⟨code', comment'⟩, hc, he⟩ := Option.map_eq_some_iff.1 h
      simp only [Prod.mk.injEq] at he
      obtain ⟨rfl, rfl⟩ := he
      have hno : ¬ startsComment token n (c :: code') = true := fun hc' => by
        rw [(eq_of_cutCommentFrom hc).1] at hs
        exact hs (startsComment_append comment' hc')
      simp [cutCommentFrom, hno, ih hc]

namespace Language

theorem eq_of_cutComment {lang : Language} {line code comment : List Char}
    (h : lang.cutComment line = some (code, comment)) : line = code ++ comment := by
  unfold cutComment at h
  split at h
  · simp at h
  · exact (eq_of_cutCommentFrom h).1

theorem cutComment_code {lang : Language} {line code comment : List Char}
    (h : lang.cutComment line = some (code, comment)) : lang.cutComment code = none := by
  unfold cutComment at h ⊢
  split at h
  · simp at h
  · next he => simp [he, cutCommentFrom_code h]

end Language

end StepScript
