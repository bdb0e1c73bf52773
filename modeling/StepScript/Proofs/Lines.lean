import StepScript.Script.Edit

/-!
# The lines of an edited text

A text is cut into lines at its line feeds, so an edit of a list of lines is an edit of the text,
and a line that is pushed to a text becomes one more line, in front of an empty last line if the
text ends with one.

Main statements:

* `length_splitLines` — a text has one line more than it has line feeds;
* `splitLines_append_cons` — a line feed divides the lines of a text;
* `joinLines_append`, `closedLines_splitLines` — lines with their line feeds;
* `exists_splitLines_pushLine` — where a pushed line stands.
-/

set_option autoImplicit false

namespace StepScript

namespace Text

/-! ## Cutting at a line feed -/

theorem splitLines_cons_of_ne {c : Char} (h : c ≠ '\n') (s : List Char) :
    ∃ line rest, splitLines s = line :: rest ∧ splitLines (c :: s) = (c :: line) :: rest := by
  cases hs : splitLines s with
  | nil => exact absurd hs (splitLines_ne_nil s)
  | cons line rest => exact ⟨line, rest, rfl, by simp [splitLines, h, hs]⟩

theorem splitLines_newline (s : List Char) : splitLines ('\n' :: s) = [] :: splitLines s := by
  simp [splitLines]

/-- A line feed divides the lines of a text. -/
theorem splitLines_append_cons (s t : List Char) :
    splitLines (s ++ '\n' :: t) = splitLines s ++ splitLines t := by
  induction s with
  | nil => exact splitLines_newline t
  | cons c s ih =>
      by_cases hc : c = '\n'
      · rw [hc, List.cons_append, splitLines_newline, splitLines_newline, ih, List.cons_append]
      · obtain ⟨line, rest, hs, hcs⟩ := splitLines_cons_of_ne hc s
        obtain ⟨line', rest', hs', hcs'⟩ := splitLines_cons_of_ne hc (s ++ '\n' :: t)
        rw [ih, hs, List.cons_append] at hs'
        obtain ⟨rfl, rfl⟩ := List.cons.inj hs'
        rw [List.cons_append, hcs', hcs, List.cons_append]

/-- A text has one line more than it has line feeds. -/
theorem length_splitLines (s : List Char) : (splitLines s).length = s.count '\n' + 1 := by
  induction s with
  | nil => rfl
  | cons c s ih =>
      by_cases hc : c = '\n'
      · rw [hc, splitLines_newline, List.length_cons, ih, List.count_cons_self]
      · obtain ⟨line, rest, hs, hcs⟩ := splitLines_cons_of_ne hc s
        rw [hcs, List.count_cons_of_ne hc, ← ih, hs, List.length_cons, List.length_cons]

theorem not_mem_of_splitLines_eq_append {s line : List Char} {front back : List (List Char)}
    (h : splitLines s = front ++ line :: back) : '\n' ∉ line :=
  not_mem_of_mem_splitLines (s := s) (by rw [h]; simp)

/-- A change between two runs of lines leaves these lines as they are. -/
theorem splitLines_joinLines_append {s : List Char} {front old new back : List (List Char)}
    (h : splitLines s = front ++ old ++ back) (hne : front ++ new ++ back ≠ [])
    (hnew : ∀ line ∈ new, '\n' ∉ line) :
    splitLines (joinLines (front ++ new ++ back)) = front ++ new ++ back := by
  refine splitLines_joinLines hne fun line hl => ?_
  simp only [List.mem_append] at hl
  rcases hl with (hl | hl) | hl
  · exact not_mem_of_mem_splitLines (s := s) (by rw [h]; simp [hl])
  · exact hnew line hl
  · exact not_mem_of_mem_splitLines (s := s) (by rw [h]; simp [hl])

/-- The number of line feeds of joined lines: those in the lines, and those between them. -/
theorem count_joinLines {lines : List (List Char)} (h : lines ≠ []) :
    (joinLines lines).count '\n' + 1 = lines.flatten.count '\n' + lines.length := by
  induction lines with
  | nil => exact absurd rfl h
  | cons line rest ih =>
      cases rest with
      | nil => simp [joinLines]
      | cons next rest =>
          rw [joinLines_cons line (List.cons_ne_nil next rest), List.count_append,
            List.count_cons_self, List.flatten_cons, List.count_append, List.length_cons]
          have := ih (List.cons_ne_nil next rest)
          omega

/-! ## Closed lines -/

def closedLines (lines : List (List Char)) : List Char :=
  lines.flatMap fun line => line ++ ['\n']

/-- Joined lines that are cut in two: those in front are closed. -/
theorem joinLines_append (front : List (List Char)) {rest : List (List Char)} (h : rest ≠ []) :
    joinLines (front ++ rest) = closedLines front ++ joinLines rest := by
  induction front with
  | nil => rfl
  | cons line front ih =>
      rw [List.cons_append, joinLines_cons line (by simp [h]), ih]
      simp [closedLines]

/-- The closed lines of a text are the text with one more line feed. -/
theorem closedLines_splitLines (s : List Char) : closedLines (splitLines s) = s ++ ['\n'] := by
  have hlines : splitLines (s ++ ['\n']) = splitLines s ++ [[]] := splitLines_append_cons s []
  rw [← joinLines_splitLines (s ++ ['\n']), hlines, joinLines_append _ (List.cons_ne_nil _ _)]
  exact (List.append_nil _).symm

end Text

open Text

namespace Script

/-! ## Pushing a line -/

theorem splitLines_pushLine_nil {line : List Char} (h : '\n' ∉ line) :
    splitLines (pushLine [] line) = [line] := by
  simp [pushLine, splitLines_of_not_mem h]

/-- A line that is pushed to a text stands behind all others but an empty last one. -/
theorem exists_splitLines_pushLine {s line : List Char} (hs : s ≠ []) (h : '\n' ∉ line) :
    ∃ body tail, splitLines s = body ++ tail ∧ (tail = [] ∨ tail = [[]]) ∧
      splitLines (pushLine s line) = body ++ line :: tail := by
  have hemp : s.isEmpty = false := by simpa using hs
  by_cases hlast : s.getLast? = some '\n'
  · obtain ⟨u, rfl⟩ := List.getLast?_eq_some_iff.1 hlast
    have hu : splitLines (u ++ ['\n']) = splitLines u ++ [[]] := splitLines_append_cons u []
    have hline : splitLines (line ++ '\n' :: []) = [line, []] := splitLines_append_newline [] h
    refine ⟨splitLines u, [[]], hu, Or.inr rfl, ?_⟩
    have hpush : pushLine (u ++ ['\n']) line = u ++ '\n' :: (line ++ '\n' :: []) := by
      simp [pushLine]
    rw [hpush, splitLines_append_cons, hline]
  · refine ⟨splitLines s, [], by simp, Or.inl rfl, ?_⟩
    have hpush : pushLine s line = s ++ '\n' :: line := by
      simp [pushLine, hemp, hlast]
    rw [hpush, splitLines_append_cons, splitLines_of_not_mem h]

end Script

end StepScript
