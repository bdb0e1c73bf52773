import StepScript.Proofs.CanonicalLine
import StepScript.Proofs.LineEdits

/-!
# A command inserted and removed again

An insertion puts one line between the lines of a script, and that line is a command line with the
index that was asked for. So removing the command at that index takes out the line that was put in,
and the script is what it was.

Main statements:

* `Placed.remove_eq` — what is left when a command line is taken out from between known lines;
* `insertUndone_of_hasMarker` — removing undoes inserting, for every index and every command that is
  written on one line.
-/

set_option autoImplicit false

namespace StepScript.Script

open Text

variable {lang : Language} {script : List Char}

/-- A script with a given list of lines is what is left when a command line is removed from between
them. -/
theorem Placed.remove_eq {script' : List Char} {rank : Nat} {l : CommandLine}
    {front back : List (List Char)} (h : Placed lang script' rank l front back)
    (hlines : splitLines script = front ++ back) : remove lang script' rank = .ok script := by
  obtain ⟨left, hremove, hleft⟩ := h.exists_remove
  rw [hremove, ← joinLines_splitLines left, hleft, ← hlines, joinLines_splitLines]

/-! ## Where an inserted command stands -/

/-- A command was inserted in a script of the built-in language as the command with a given index:
its line stands between the lines that were there. -/
structure InsertedAt (script : List Char) (c : Command) (index : Nat) (script' : List Char)
    (front back : List (List Char)) : Prop where
  lines_eq : splitLines script = front ++ back
  placed : ∃ indent, allBlank indent = true ∧
    Placed .standard script' index ⟨front.length, indent ++ c.toLine, c.keyword⟩ front back

variable {c : Command}

/-- Behind the last command, the new line goes to the end of the script. -/
theorem insertedAt_count (hmarker : hasMarker .standard script = true) (hc : '\n' ∉ c.toLine) :
    ∃ script' front back, insert .standard script c (count .standard script) = .ok script' ∧
      InsertedAt script c (count .standard script) script' front back := by
  obtain ⟨hblank, hind⟩ := allBlank_appendIndent (commandLines .standard script)
  have hline : '\n' ∉ appendIndent (commandLines .standard script) ++ c.toLine := by
    simp [hind, hc]
  obtain ⟨front, back, hlines, hfront, hamong, -, hpush⟩ := exists_pushed hmarker hline
  refine ⟨append .standard script c, front, back, by rw [insert, if_pos rfl], hlines, _, hblank, ?_⟩
  rw [append_eq, withMarker, if_pos hmarker]
  exact ⟨hpush, rfl, by rw [hamong, count], hfront, Command.isCommandText_toLine hblank c⟩

/-- In front of a command, the new line goes right above the line of that command. -/
theorem Placed.insertedAt {rank : Nat} {l : CommandLine} {front back : List (List Char)}
    (h : Placed .standard script rank l front back) (hc : '\n' ∉ c.toLine) :
    ∃ script', insert .standard script c rank = .ok script' ∧
      InsertedAt script c rank script' front (l.text :: back) := by
  obtain ⟨script', hinsert, hlines⟩ := h.exists_insert hc
  have hblank : allBlank (indentation l.text) = true := allBlank_indentation l.text
  exact ⟨script', hinsert, h.lines_eq, _, hblank, hlines, rfl, h.rank_eq, h.marker,
    Command.isCommandText_toLine hblank c⟩

/-! ## Undone insertions -/

/-- What is promised of an insertion that made a script from another one. -/
structure InsertUndone (script : List Char) (c : Command) (index : Nat) (script' : List Char) :
    Prop where
  /-- The new line, and nothing else, was put in; it is the command line with the index. -/
  new_line : ∃ l indent, (commandLines .standard script')[index]? = some l ∧
    l.keyword = c.keyword ∧ allBlank indent = true ∧ l.text = indent ++ c.toLine ∧
    splitLines script' = (splitLines script).insertIdx l.index l.text
  /-- There is one command more. -/
  count_eq : count .standard script' = count .standard script + 1
  /-- Removing the command gives the script back, character by character. -/
  remove_eq : remove .standard script' index = .ok script

theorem InsertedAt.insertUndone {index : Nat} {script' : List Char} {front back : List (List Char)}
    (h : InsertedAt script c index script' front back) : InsertUndone script c index script' := by
  obtain ⟨indent, hblank, hplaced⟩ := h.placed
  refine ⟨⟨_, indent, hplaced.getElem?, rfl, hblank, rfl, ?_⟩, ?_, hplaced.remove_eq h.lines_eq⟩
  · rw [hplaced.lines_eq, h.lines_eq]
    exact (insertIdx_length_append front back _).symm
  · have hm : (false || anyMarker Language.standard front) = true := by simpa using hplaced.marker
    have hback := congrArg List.length (commandsAmong_add .standard true (front.length) 1 back)
    rw [count, hplaced.commandLines_eq, count, commandLines_eq, h.lines_eq, commandsAmong_append,
      hm, List.length_append, List.length_cons, List.length_append, Nat.zero_add, hback,
      List.length_map]
    omega

/-- **Removing undoes inserting.** In a script of the built-in language with a marker, a command that
is written on one line can be inserted at every index up to the number of commands; its line is the
command line with that index, and when it is removed the script is what it was. -/
theorem insertUndone_of_hasMarker {index : Nat} (hmarker : hasMarker .standard script = true)
    (hindex : index ≤ count .standard script) (hc : ∀ p ∈ c.params, '\n' ∉ p.raw) :
    ∃ script', insert .standard script c index = .ok script' ∧
      InsertUndone script c index script' := by
  have hline : '\n' ∉ c.toLine := Command.newline_not_mem_toLine_iff.2 hc
  rcases Nat.lt_or_eq_of_le hindex with hlt | rfl
  · obtain ⟨l, front, back, hplaced⟩ := exists_placed_of_lt hlt
    obtain ⟨script', hinsert, hat⟩ := hplaced.insertedAt hline
    exact ⟨script', hinsert, hat.insertUndone⟩
  · obtain ⟨script', front, back, hinsert, hat⟩ := insertedAt_count hmarker hline
    exact ⟨script', hinsert, hat.insertUndone⟩

/-- A command whose parameters are unbalanced and hold a comment mark, put at the end of a script
that ends with blank lines and a stray one. -/
theorem insertUndone_of_hasMarker_ragged :
    let script := "步骤 :\n\t返回 [\nstray\n\n".toList
    let c : Command := ⟨0, .input, [Parameter.ofText "\x7ba".toList, Parameter.ofText "]# b, ".toList]⟩
    ∃ script', insert .standard script c 1 = .ok script' ∧ InsertUndone script c 1 script' := by
  intro script c
  exact insertUndone_of_hasMarker (by decide) (by decide) (by decide)

end StepScript.Script
