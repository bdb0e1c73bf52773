/-!
# Lines

A text is cut into **lines** at every line feed, and at nothing else. A text always has at least
one line, and a text that ends with a line feed has an empty last line.

Main statements:

* `joinLines_splitLines` — joining the lines of a text gives the text back;
* `splitLines_joinLines` — splitting joined lines gives the lines back.
-/

set_option autoImplicit false

namespace StepScript.Text

def splitLines : List Char → List (List Char)
  | [] => [[]]
  | c :: s =>
    if c = '\n' then [] :: splitLines s
    else
      match splitLines s with
      | [] => [[c]]
      | line :: rest => (c :: line) :: rest

def joinLines : List (List Char) → List Char
  | [] => []
  | [line] => line
  | line :: rest => line ++ '\n' :: joinLines rest

/-! ## Laws -/

theorem splitLines_ne_nil (s : List Char) : splitLines s ≠ [] := by
  cases s with
  | nil => simp [splitLines]
  | cons c s =>
    unfold splitLines
    split
    · simp
    · split <;> simp

theorem joinLines_cons {rest : List (List Char)} (line : List Char) (h : rest ≠ []) :
    joinLines (line :: rest) = line ++ '\n' :: joinLines rest := by
  cases rest with
  | nil => exact absurd rfl h
  | cons _ _ => rfl

theorem joinLines_cons_cons (c : Char) (line : List Char) (rest : List (List Char)) :
    joinLines ((c :: line) :: rest) = c :: joinLines (line :: rest) := by
  cases rest <;> simp [joinLines]

@[simp] theorem joinLines_splitLines (s : List Char) : joinLines (splitLines s) = s := by
  induction s with
  | nil => rfl
  | cons c s ih =>
    unfold splitLines
    split
    · next h => rw [joinLines_cons _ (splitLines_ne_nil s), ih, h]; rfl
    · split
      · next h => exact absurd h (splitLines_ne_nil s)
      · next h => rw [joinLines_cons_cons, ← h, ih]

/-- No line of a text holds a line feed. -/
theorem not_mem_of_mem_splitLines {s line : List Char} (h : line ∈ splitLines s) :
    '\n' ∉ line := by
  induction s generalizing line with
  | nil => simp_all [splitLines]
  | cons c s ih =>
    unfold splitLines at h
    split at h
    · rcases List.mem_cons.1 h with rfl | h
      · simp
      · exact ih h
    · next hc =>
      split at h
      · simp_all
        exact fun h => hc h.symm
      · next hs =>
        rcases List.mem_cons.1 h with rfl | h
        · have := ih (hs ▸ List.mem_cons_self)
          simp only [List.mem_cons, not_or]
          exact ⟨fun h => hc h.symm, this⟩
        · exact ih (hs ▸ List.mem_cons_of_mem _ h)

theorem splitLines_append_newline {line : List Char} (s : List Char) (h : '\n' ∉ line) :
    splitLines (line ++ '\n' :: s) = line :: splitLines s := by
  induction line with
  | nil => simp [splitLines]
  | cons c line ih =>
    simp only [List.mem_cons, not_or] at h
    simp [splitLines, ih h.2, Ne.symm h.1]

theorem splitLines_of_not_mem {line : List Char} (h : '\n' ∉ line) :
    splitLines line = [line] := by
  induction line with
  | nil => rfl
  | cons c line ih =>
    simp only [List.mem_cons, not_or] at h
    simp [splitLines, ih h.2, Ne.symm h.1]

/-- Lines without line feeds come back when their join is split. -/
theorem splitLines_joinLines {lines : List (List Char)} (hne : lines ≠ [])
    (h : ∀ line ∈ lines, '\n' ∉ line) : splitLines (joinLines lines) = lines := by
  induction lines with
  | nil => exact absurd rfl hne
  | cons line rest ih =>
    cases rest with
    | nil => exact splitLines_of_not_mem (h line List.mem_cons_self)
    | cons next rest =>
      rw [joinLines_cons _ (by simp),
        splitLines_append_newline _ (h line List.mem_cons_self),
        ih (by simp) fun l hl => h l (List.mem_cons_of_mem _ hl)]

end StepScript.Text
