import StepScript.Proofs.Views

/-!
# How views take marks

A view that shows a script takes marks on the command lines of the script. What becomes of a request
hangs on these lines and on the mark that is shown, and is the same for both views; only a mark that
is applied changes the view, and what is drawn there stays as it is.

Main statements:

* `TextView.Shows.outcome_markLine`, `BlockView.Shows.outcome_markLine` — what becomes of a request;
* `TextView.mark?_markLine`, `BlockView.mark?_markLine` — the mark that is shown afterwards.
-/

set_option autoImplicit false

namespace StepScript

/-! ## Requests -/

def Script.commandNumbers (lang : Language) (script : List Char) : List Nat :=
  (Script.commandLines lang script).map CommandLine.number

namespace LineMark

/-- What becomes of a request for a mark, where marks go on the given lines and `current` is the
mark that is shown. -/
def outcome (lines : List Nat) (current : Option LineMark) (m : LineMark) : MarkOutcome :=
  if m.line ∈ lines then (m.refusal? current).getD .applied else .ignored

/-- The mark that is shown after a request. -/
def shownAfter (lines : List Nat) (current : Option LineMark) (m : LineMark) : Option LineMark :=
  if m.outcome lines current = .applied then some m else current

variable {lines : List Nat} {current : Option LineMark} {m : LineMark}

theorem refusal?_ne_applied : m.refusal? current ≠ some .applied := by
  unfold refusal?
  split
  · simp
  · split
    · simp
    · split <;> simp

theorem outcome_of_not_mem (h : m.line ∉ lines) : m.outcome lines current = .ignored :=
  if_neg h

theorem outcome_none (h : m.line ∈ lines) : m.outcome lines none = .applied :=
  if_pos h

/-- An error mark is always shown in the end on a command line. -/
theorem shownAfter_error {line : Nat} (h : line ∈ lines) :
    LineMark.shownAfter lines current ⟨line, .error⟩ = some ⟨line, .error⟩ := by
  unfold shownAfter outcome refusal?
  rw [if_pos h]
  cases current with
  | none => rfl
  | some old =>
      by_cases hsame : old = ⟨line, .error⟩
      · simp [hsame]
      · simp [hsame]

/-- An executing mark is shown on a command line that carries no error mark. -/
theorem shownAfter_executing {line : Nat} (h : line ∈ lines)
    (hcurrent : current ≠ some ⟨line, .error⟩) :
    LineMark.shownAfter lines current ⟨line, .executing⟩ = some ⟨line, .executing⟩ := by
  unfold shownAfter outcome refusal?
  rw [if_pos h]
  cases current with
  | none => rfl
  | some old =>
      obtain ⟨number, kind⟩ := old
      cases kind with
      | executing => by_cases hsame : number = line <;> simp [hsame]
      | error =>
          have hne : number ≠ line := by
            rintro rfl
            exact hcurrent rfl
          simp [hne]

end LineMark

/-! ## The text view -/

namespace TextView

/-- A text view that shows a script. -/
structure Shows (lang : Language) (script : List Char) (v : TextView) : Prop where
  text_eq : v.text = script
  commandLines_eq : v.commandLines = Script.commandNumbers lang script

variable {lang : Language} {script : List Char} {v : TextView}

theorem shows_render (lang : Language) (script : List Char) (v : TextView) :
    (v.render lang script).Shows lang script := ⟨rfl, rfl⟩

/-- What becomes of a request hangs on the command lines of the script and on the shown mark. -/
theorem Shows.outcome_markLine (h : v.Shows lang script) (m : LineMark) :
    (v.markLine m).2 = m.outcome (Script.commandNumbers lang script) v.mark? := by
  unfold markLine LineMark.outcome
  rw [h.commandLines_eq]
  by_cases hm : m.line ∈ Script.commandNumbers lang script
  · rw [if_neg (not_not_intro hm), if_pos hm]
    cases hr : m.refusal? v.mark? with
    | some outcome => rfl
    | none =>
        -- a command line is one of the lines of the script, and so it has a range
        obtain ⟨l, hl, hnumber⟩ := List.mem_map.1 hm
        have hline : m.line - 1 < (Text.splitLines script).length := by
          have hlt := Script.index_lt_of_mem_commandLines hl
          rw [← hnumber, CommandLine.number]
          omega
        obtain ⟨range, hrange⟩ := Option.isSome_iff_exists.1 (Text.isSome_lineRange? hline)
        rw [h.text_eq]
        simp only [hrange]
        rfl
  · rw [if_pos hm, if_neg hm]

/-- A request changes nothing of the view but the mark and the number of redraws, and these only if
the mark is applied. -/
theorem markLine_cases (v : TextView) (m : LineMark) :
    ((v.markLine m).2 ≠ .applied ∧ (v.markLine m).1 = v) ∨
      (v.markLine m).2 = .applied ∧ ∃ range, (v.markLine m).1 =
        { v with marked := some (m, range), redraws := v.redraws + 1 } := by
  unfold markLine
  split
  · exact Or.inl ⟨by simp, rfl⟩
  · split
    · next outcome hr =>
      refine Or.inl ⟨?_, rfl⟩
      rintro rfl
      exact LineMark.refusal?_ne_applied hr
    · split
      · exact Or.inl ⟨by simp, rfl⟩
      · next range hrange => exact Or.inr ⟨rfl, range, rfl⟩

/-- The mark that is shown after a request. -/
theorem Shows.mark?_markLine (h : v.Shows lang script) (m : LineMark) :
    (v.markLine m).1.mark? = m.shownAfter (Script.commandNumbers lang script) v.mark? := by
  rw [LineMark.shownAfter, ← h.outcome_markLine m]
  rcases v.markLine_cases m with ⟨hne, hv⟩ | ⟨happlied, range, hv⟩
  · rw [if_neg hne, hv]
  · rw [if_pos happlied, hv]
    rfl

theorem Shows.markLine (h : v.Shows lang script) (m : LineMark) :
    (v.markLine m).1.Shows lang script := by
  rcases v.markLine_cases m with ⟨-, hv⟩ | ⟨-, range, hv⟩
  · rw [hv]
    exact h
  · rw [hv]
    exact ⟨h.text_eq, h.commandLines_eq⟩

theorem locked_markLine (v : TextView) (m : LineMark) : (v.markLine m).1.locked = v.locked := by
  rcases v.markLine_cases m with ⟨-, hv⟩ | ⟨-, range, hv⟩ <;> rw [hv]

theorem mark?_clearMark (v : TextView) : v.clearMark.mark? = none := by
  unfold clearMark
  split
  · rfl
  · next h => simpa [mark?] using h

theorem Shows.clearMark (h : v.Shows lang script) : v.clearMark.Shows lang script := by
  unfold TextView.clearMark
  split
  · exact ⟨h.text_eq, h.commandLines_eq⟩
  · exact h

theorem locked_clearMark (v : TextView) : v.clearMark.locked = v.locked := by
  unfold clearMark
  split <;> rfl

end TextView

/-! ## The block view -/

namespace BlockView

/-- A block view that shows a script. -/
structure Shows (lang : Language) (script : List Char) (v : BlockView) : Prop where
  blocks_eq : v.blocks = blocksFrom 0 (Script.parse lang script)

variable {lang : Language} {script : List Char} {v : BlockView}

theorem shows_render (lang : Language) (script : List Char) (v : BlockView) :
    (v.render lang script).Shows lang script := ⟨rfl⟩

/-- The blocks of a view that shows a script stand for its command lines. -/
theorem Shows.map_line_blocks (h : v.Shows lang script) (ha : lang.CommentApart) :
    v.blocks.map (fun b => b.command.line) = Script.commandNumbers lang script := by
  have hcommands := congrArg (List.map Command.line)
    (map_command_blocksFrom 0 (Script.parse lang script))
  rw [List.map_map] at hcommands
  rw [h.blocks_eq]
  refine hcommands.trans ?_
  rw [Script.parse_eq_map ha, List.map_map]
  rfl

/-- What becomes of a request hangs on the command lines of the script and on the shown mark. -/
theorem Shows.outcome_markLine (h : v.Shows lang script) (ha : lang.CommentApart) (m : LineMark) :
    (v.markLine m).2 = m.outcome (Script.commandNumbers lang script) v.mark? := by
  have hfound : (v.blocks.findIdx? fun b => b.command.line == m.line) = none ↔
      m.line ∉ Script.commandNumbers lang script := by
    rw [List.findIdx?_eq_none_iff, ← h.map_line_blocks ha, List.mem_map]
    simp
  unfold markLine LineMark.outcome
  cases hb : v.blocks.findIdx? fun b => b.command.line == m.line with
  | none => rw [if_neg (hfound.1 hb)]
  | some index =>
      have hm : m.line ∈ Script.commandNumbers lang script := by
        by_contra hm
        rw [hfound.2 hm] at hb
        simp at hb
      rw [if_pos hm]
      dsimp only
      cases m.refusal? v.mark? <;> rfl

/-- A request changes nothing of the view but the mark and the number of redraws, and these only if
the mark is applied. -/
theorem markLine_cases (v : BlockView) (m : LineMark) :
    ((v.markLine m).2 ≠ .applied ∧ (v.markLine m).1 = v) ∨
      (v.markLine m).2 = .applied ∧ ∃ index, (v.markLine m).1 =
        { v with marked := some (m, index), redraws := v.redraws + 1 } := by
  unfold markLine
  split
  · exact Or.inl ⟨by simp, rfl⟩
  · next index hindex =>
    split
    · next outcome hr =>
      refine Or.inl ⟨?_, rfl⟩
      rintro rfl
      exact LineMark.refusal?_ne_applied hr
    · exact Or.inr ⟨rfl, index, rfl⟩

/-- The mark that is shown after a request. -/
theorem Shows.mark?_markLine (h : v.Shows lang script) (ha : lang.CommentApart) (m : LineMark) :
    (v.markLine m).1.mark? = m.shownAfter (Script.commandNumbers lang script) v.mark? := by
  rw [LineMark.shownAfter, ← h.outcome_markLine ha m]
  rcases v.markLine_cases m with ⟨hne, hv⟩ | ⟨happlied, index, hv⟩
  · rw [if_neg hne, hv]
  · rw [if_pos happlied, hv]
    rfl

theorem Shows.markLine (h : v.Shows lang script) (m : LineMark) :
    (v.markLine m).1.Shows lang script := by
  rcases v.markLine_cases m with ⟨-, hv⟩ | ⟨-, index, hv⟩
  · rw [hv]
    exact h
  · rw [hv]
    exact ⟨h.blocks_eq⟩

theorem locked_markLine (v : BlockView) (m : LineMark) : (v.markLine m).1.locked = v.locked := by
  rcases v.markLine_cases m with ⟨-, hv⟩ | ⟨-, index, hv⟩ <;> rw [hv]

theorem mark?_clearMark (v : BlockView) : v.clearMark.mark? = none := by
  unfold clearMark
  split
  · rfl
  · next h => simpa [mark?] using h

theorem Shows.clearMark (h : v.Shows lang script) : v.clearMark.Shows lang script := by
  unfold BlockView.clearMark
  split
  · exact ⟨h.blocks_eq⟩
  · exact h

theorem locked_clearMark (v : BlockView) : v.clearMark.locked = v.locked := by
  unfold clearMark
  split <;> rfl

end BlockView

end StepScript
