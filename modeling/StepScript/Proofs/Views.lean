import StepScript.Proofs.CommandText
import StepScript.View.BlockView
import StepScript.View.TextView

/-!
# What the views show

A screen breaks a text wherever a script breaks into lines, and at more places; so every line of a
script has a range of characters on the screen. A block view shows the commands that it was drawn
from, each at its own rank, and a text view that was just drawn takes a mark on every command line
and on no other line.

Main statements:

* `Text.isSome_lineRange?` — every line of a text is shown;
* `BlockView.map_command_blocks_render`, `BlockView.index_eq_of_getElem?_blocks_render` — the
  blocks of a view that was just drawn;
* `TextView.markLine_render` — which marks such a view takes.
-/

set_option autoImplicit false

namespace StepScript

/-! ## Shown lines -/

namespace Text

/-- A text breaks on the screen at each of its line feeds. -/
theorem count_newline_le_length_breakStarts (offset : Nat) (s : List Char) :
    s.count '\n' ≤ (breakStarts offset s).length := by
  fun_induction breakStarts offset s with
  | case1 => simp
  | case2 offset s ih => simpa using ih
  | case3 offset c s _ hb ih =>
      have hc : (c :: s).count '\n' ≤ s.count '\n' + 1 := by
        rw [List.count_cons]
        split <;> omega
      rw [List.length_cons]
      omega
  | case4 offset c s _ hb ih =>
      have hc : c ≠ '\n' := by
        rintro rfl
        exact hb rfl
      rw [List.count_cons_of_ne hc]
      exact ih

/-- Every line of a text is shown. -/
theorem isSome_lineRange? {s : List Char} {n : Nat} (h : n < (splitLines s).length) :
    (lineRange? s n).isSome = true := by
  have hle := count_newline_le_length_breakStarts 0 s
  have hlt : n < (lineStarts s).length := by
    rw [lineStarts, List.length_cons]
    rw [length_splitLines] at h
    omega
  rw [lineRange?, List.getElem?_eq_getElem hlt]
  rfl

end Text

open Script

variable (lang : Language)

namespace Script

variable {lang} in
/-- A command line is one of the lines of its script. -/
theorem index_lt_of_mem_commandLines {script : List Char} {l : CommandLine}
    (h : l ∈ commandLines lang script) : l.index < (Text.splitLines script).length := by
  obtain ⟨i, hi⟩ := List.getElem?_of_mem h
  obtain ⟨front, back, hp⟩ := exists_placed lang hi
  rw [hp.lines_eq, hp.index_eq, List.length_append, List.length_cons]
  omega

end Script

/-! ## The block view -/

namespace BlockView

theorem map_command_blocksFrom (index : Nat) (commands : List Command) :
    (blocksFrom index commands).map Block.command = commands := by
  induction commands generalizing index with
  | nil => rfl
  | cons c commands ih => rw [blocksFrom, List.map_cons, ih]

theorem index_eq_of_getElem?_blocksFrom {index i : Nat} {commands : List Command} {b : Block}
    (h : (blocksFrom index commands)[i]? = some b) : b.index = index + i := by
  induction commands generalizing index i with
  | nil => simp [blocksFrom] at h
  | cons c commands ih =>
      cases i with
      | zero =>
          obtain rfl : ⟨index, c⟩ = b := by simpa [blocksFrom] using h
          rfl
      | succ i =>
          rw [ih (by simpa [blocksFrom] using h)]
          omega

/-- The blocks of a view that was just drawn are the commands of the script. -/
theorem map_command_blocks_render (script : List Char) (v : BlockView) :
    (v.render lang script).blocks.map Block.command = parse lang script :=
  map_command_blocksFrom 0 _

/-- A block of a view that was just drawn knows its rank. -/
theorem index_eq_of_getElem?_blocks_render {script : List Char} {v : BlockView} {i : Nat}
    {b : Block} (h : (v.render lang script).blocks[i]? = some b) : b.index = i := by
  rw [index_eq_of_getElem?_blocksFrom h, Nat.zero_add]

end BlockView

/-! ## The text view -/

namespace TextView

/-- A view that was just drawn takes a mark on every command line and on no other line. -/
theorem markLine_render (script : List Char) (v : TextView) (m : LineMark) :
    ((v.render lang script).markLine m).2 =
      if m.line ∈ (Script.commandLines lang script).map CommandLine.number then .applied
      else .ignored := by
  unfold markLine
  by_cases hm : m.line ∈ (Script.commandLines lang script).map CommandLine.number
  · obtain ⟨l, hl, hnum⟩ := List.mem_map.1 hm
    have hline : m.line - 1 < (Text.splitLines script).length := by
      have hlt := index_lt_of_mem_commandLines hl
      rw [← hnum, CommandLine.number]
      omega
    obtain ⟨range, hr⟩ := Option.isSome_iff_exists.1 (Text.isSome_lineRange? hline)
    rw [if_neg (by simpa [render] using hm), if_pos hm]
    -- drawing clears the mark, so that none is there to refuse the new one
    have hfresh : m.refusal? (v.render lang script).mark? = none := rfl
    have hrange : Text.lineRange? (v.render lang script).text (m.line - 1) = some range := hr
    rw [hfresh, hrange]
  · rw [if_pos (by simpa [render] using hm), if_neg hm]

end TextView

end StepScript
