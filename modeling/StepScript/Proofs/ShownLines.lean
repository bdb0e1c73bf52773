import StepScript.Proofs.Views
import StepScript.Text.LineEnding

/-!
# The characters that a mark covers

A mark is requested for a line of the script, which ends at a line feed, and drawn over a line of the
screen, which may end at other characters as well. The two are the same line as long as neither it
nor a line above it holds another line break. Behind such a break the mark covers other characters.

Main statements:

* `Text.lineRange?_eq_iff` — when a shown line is a line of the text;
* `TextView.marksLine_render` — which characters a mark covers.
-/

set_option autoImplicit false

namespace StepScript

namespace Text

/-! ## Breaks on the screen -/

theorem breakStarts_cons {c : Char} (hc : c ≠ '\r') (offset : Nat) (s : List Char) :
    breakStarts offset (c :: s) =
      (if isBreak c then [offset + 1] else []) ++ breakStarts (offset + 1) s := by
  rw [breakStarts]
  · split <;> rfl
  · rintro t rfl
    exact absurd rfl hc

/-- Without carriage returns, breaks can be looked for in one part of a text after the other. -/
theorem breakStarts_append {s : List Char} (hs : '\r' ∉ s) (offset : Nat) (t : List Char) :
    breakStarts offset (s ++ t) = breakStarts offset s ++ breakStarts (offset + s.length) t := by
  induction s generalizing offset with
  | nil => rfl
  | cons c s ih =>
      obtain ⟨hc, hs⟩ := List.ne_and_not_mem_of_not_mem_cons hs
      rw [List.cons_append, breakStarts_cons hc.symm, breakStarts_cons hc.symm, ih hs,
        List.append_assoc, List.length_cons, Nat.add_right_comm, Nat.add_assoc]

theorem length_breakStarts {s : List Char} (hs : '\r' ∉ s) (offset : Nat) :
    (breakStarts offset s).length = s.countP isBreak := by
  induction s generalizing offset with
  | nil => rfl
  | cons c s ih =>
      obtain ⟨hc, hs⟩ := List.ne_and_not_mem_of_not_mem_cons hs
      rw [breakStarts_cons hc.symm, List.length_append, ih hs, List.countP_cons]
      split <;> simp [Nat.add_comm]

/-- The line behind a break starts behind its character. -/
theorem mem_breakStarts {offset x : Nat} {s : List Char} (h : x ∈ breakStarts offset s) :
    offset < x ∧ x ≤ offset + s.length := by
  fun_induction breakStarts offset s with
  | case1 => cases h
  | case2 offset s ih =>
      rw [List.length_cons, List.length_cons]
      rcases List.mem_cons.1 h with rfl | h
      · omega
      · have hx := ih h
        omega
  | case3 offset c s _ _ ih =>
      rw [List.length_cons]
      rcases List.mem_cons.1 h with rfl | h
      · omega
      · have hx := ih h
        omega
  | case4 offset c s _ _ ih =>
      rw [List.length_cons]
      have hx := ih h
      omega

/-- Shown lines start one behind the other. -/
theorem pairwise_lineStarts (s : List Char) : (lineStarts s).Pairwise (· < ·) := by
  suffices h : ∀ offset, (breakStarts offset s).Pairwise (· < ·) from
    List.pairwise_cons.2 ⟨fun x hx => (mem_breakStarts hx).1, h 0⟩
  intro offset
  fun_induction breakStarts offset s with
  | case1 => exact .nil
  | case2 offset s ih => exact .cons (fun x hx => (mem_breakStarts hx).1) ih
  | case3 offset c s _ _ ih => exact .cons (fun x hx => (mem_breakStarts hx).1) ih
  | case4 offset c s _ _ ih => exact ih

/-! ## Lines of the text and lines of the screen -/

/-- The characters up to a line of a text. -/
def lineOffset (lines : List (List Char)) : Nat :=
  (closedLines lines).length

/-- What stands behind a line: nothing, or a line feed and the lines that follow. -/
def tailText (back : List (List Char)) : List Char :=
  if back.isEmpty then [] else '\n' :: joinLines back

/-- A text around one of its lines. -/
theorem eq_around_line {s line : List Char} {front back : List (List Char)}
    (h : splitLines s = front ++ line :: back) :
    s = closedLines front ++ (line ++ tailText back) := by
  rw [← joinLines_splitLines s, h, joinLines_append front (List.cons_ne_nil line back)]
  cases back with
  | nil => simp [tailText, joinLines]
  | cons next back =>
      rw [joinLines_cons line (List.cons_ne_nil next back)]
      rfl

/-- A line without breaks but its own end. -/
def Unbroken (line : List Char) : Prop :=
  ∀ c ∈ line, isBreak c = false

theorem countP_eq_zero_iff {line : List Char} : line.countP isBreak = 0 ↔ Unbroken line := by
  simp [Unbroken, List.countP_eq_zero]

/-- Closed lines have a break each, and those that they hold. -/
theorem countP_closedLines (lines : List (List Char)) :
    (closedLines lines).countP isBreak = lines.length + lines.flatten.countP isBreak := by
  induction lines with
  | nil => rfl
  | cons line lines ih =>
      have hcons : closedLines (line :: lines) = (line ++ ['\n']) ++ closedLines lines := rfl
      have hfeed : ['\n'].countP isBreak = 1 := rfl
      rw [hcons, List.countP_append, List.countP_append, ih, hfeed, List.length_cons,
        List.flatten_cons, List.countP_append]
      omega

/-- Lines are unbroken exactly if all their breaks are line feeds. -/
theorem countP_closedLines_eq_iff {lines : List (List Char)} :
    (closedLines lines).countP isBreak = lines.length ↔ ∀ line ∈ lines, Unbroken line := by
  have hzero : lines.flatten.countP isBreak = 0 ↔ ∀ line ∈ lines, Unbroken line := by
    rw [countP_eq_zero_iff]
    constructor
    · exact fun h line hline c hc => h c (List.mem_flatten_of_mem hline hc)
    · intro h c hc
      obtain ⟨line, hline, hmem⟩ := List.mem_flatten.1 hc
      exact h line hline c hmem
  rw [countP_closedLines, ← hzero]
  omega

/-- The end of the shown line that starts at `offset`, where the rest of the text is `t`. -/
def lineEnd (offset : Nat) (t : List Char) : Nat :=
  match (breakStarts offset t).head? with
  | some next => next - 1
  | none => offset + t.length

/-- A line ends where the screen ends it exactly if no break stands in it. -/
theorem lineEnd_eq_iff {line : List Char} (hline : '\r' ∉ line) (offset : Nat)
    (back : List (List Char)) :
    lineEnd offset (line ++ tailText back) = offset + line.length ↔ Unbroken line := by
  have hlen := length_breakStarts hline offset
  rw [lineEnd, breakStarts_append hline, ← countP_eq_zero_iff, ← hlen]
  cases hstarts : breakStarts offset line with
  | nil =>
      -- the line ends at its line feed, or with the text
      cases back with
      | nil => simp [tailText, breakStarts]
      | cons next back => simp [tailText, breakStarts_cons, isBreak]
  | cons next rest =>
      -- the first break in the line ends it too early
      obtain ⟨hlt, hle⟩ := mem_breakStarts (hstarts ▸ List.mem_cons_self)
      simp only [List.cons_append, List.head?_cons, List.length_cons]
      omega

variable {front : List (List Char)}

/-- Behind closed lines, the screen starts a new line. -/
theorem getElem?_lineStarts_closedLines (t : List Char) (hnormal : '\r' ∉ closedLines front) :
    (lineStarts (closedLines front ++ t))[(closedLines front).countP isBreak]? =
      some (lineOffset front) := by
  rw [← length_breakStarts hnormal 0, lineStarts, breakStarts_append hnormal, ← List.cons_append]
  rcases List.eq_nil_or_concat front with rfl | ⟨init, last, hconcat⟩
  · rfl
  · rw [List.concat_eq_append] at hconcat
    subst hconcat
    -- the last of these lines ends with a line feed, behind which the next line starts
    have hlast : closedLines (init ++ [last]) = (closedLines init ++ last) ++ ['\n'] := by
      simp [closedLines]
    have hinit : '\r' ∉ closedLines init ++ last := fun hmem => hnormal <| by
      rw [hlast]
      exact List.mem_append_left _ hmem
    have hend : breakStarts 0 (closedLines (init ++ [last])) =
        breakStarts 0 (closedLines init ++ last) ++ [lineOffset (init ++ [last])] := by
      rw [lineOffset, hlast, breakStarts_append hinit, List.length_append]
      simp [breakStarts_cons, breakStarts, isBreak, Nat.add_assoc]
    rw [hend]
    simp

/-- The shown line behind closed lines. -/
theorem lineRange?_closedLines (t : List Char) (hnormal : '\r' ∉ closedLines front) :
    lineRange? (closedLines front ++ t) ((closedLines front).countP isBreak) =
      some (lineOffset front, lineEnd (lineOffset front) t) := by
  have hstart := getElem?_lineStarts_closedLines t hnormal
  have hnext : (lineStarts (closedLines front ++ t))[(closedLines front).countP isBreak + 1]? =
      (breakStarts (lineOffset front) t).head? := by
    rw [← length_breakStarts hnormal 0, lineStarts, breakStarts_append hnormal, Nat.zero_add,
      List.getElem?_cons_succ, List.getElem?_append_right (Nat.le_refl _), Nat.sub_self,
      List.head?_eq_getElem?]
    rfl
  rw [lineRange?, hstart, Option.map_some, hnext, lineEnd, List.length_append]
  cases (breakStarts (lineOffset front) t).head? <;> rfl

/-- **When a shown line is a line of the text**: if no other break stands up to its end. -/
theorem lineRange?_eq_iff {s line : List Char} {back : List (List Char)} (hnormal : '\r' ∉ s)
    (h : splitLines s = front ++ line :: back) :
    lineRange? s front.length = some (lineOffset front, lineOffset front + line.length) ↔
      ∀ l ∈ front ++ [line], Unbroken l := by
  have hs := eq_around_line h
  have hfront : '\r' ∉ closedLines front := fun hmem => hnormal <| by
    rw [hs]
    exact List.mem_append_left _ hmem
  have hline : '\r' ∉ line := fun hmem => hnormal <| by
    rw [hs]
    exact List.mem_append_right _ (List.mem_append_left _ hmem)
  have hrange := lineRange?_closedLines (line ++ tailText back) hfront
  have hstart := getElem?_lineStarts_closedLines (line ++ tailText back) hfront
  rw [← hs] at hrange hstart
  have hsplit : (∀ l ∈ front ++ [line], Unbroken l) ↔
      (∀ l ∈ front, Unbroken l) ∧ Unbroken line := by
    simp [or_imp, forall_and]
  rw [hsplit, ← countP_closedLines_eq_iff, ← lineEnd_eq_iff hline (lineOffset front) back]
  constructor
  · intro hshown
    -- two shown lines do not start at one place
    have hcount : (closedLines front).countP isBreak = front.length := by
      have hsame : (lineStarts s)[front.length]? = some (lineOffset front) := by
        obtain ⟨start, hget, heq⟩ := Option.map_eq_some_iff.1 hshown
        rw [hget]
        split at heq <;> exact congrArg (fun range => some range.1) heq
      have hnodup : (lineStarts s).Nodup := (pairwise_lineStarts s).imp fun hlt => Nat.ne_of_lt hlt
      have hlt := (List.getElem?_eq_some_iff.1 hstart).1
      exact (List.getElem?_inj hlt hnodup).1 (hstart.trans hsame.symm)
    rw [hcount, hshown] at hrange
    exact ⟨hcount, (congrArg Prod.snd (Option.some.inj hrange)).symm⟩
  · rintro ⟨hcount, hend⟩
    rw [← hcount, hrange, hend]

/-- The characters of a line of a text. -/
theorem take_drop_lineOffset {s line : List Char} {back : List (List Char)}
    (h : splitLines s = front ++ line :: back) :
    (s.drop (lineOffset front)).take line.length = line := by
  rw [eq_around_line h, lineOffset, List.drop_left, List.take_left]

end Text

open Text

/-- Where a command line stands in its script: its first character, and the one behind its last. -/
def CommandLine.span (script : List Char) (l : CommandLine) : Nat × Nat :=
  let start := lineOffset ((splitLines script).take l.index)
  (start, start + l.text.length)

namespace TextView

variable {lang : Language} {script : List Char} {l : CommandLine}

/-- The mark on a command line covers the line of the screen with the same number. -/
theorem markRange?_markLine_render (v : TextView) (hl : l ∈ Script.commandLines lang script)
    (kind : MarkKind) :
    ((v.render lang script).markLine ⟨l.number, kind⟩).1.markRange? =
      lineRange? script l.index := by
  have hmem : l.number ∈ (v.render lang script).commandLines := List.mem_map.2 ⟨l, hl, rfl⟩
  obtain ⟨range, hrange⟩ :=
    Option.isSome_iff_exists.1 (isSome_lineRange? (Script.index_lt_of_mem_commandLines hl))
  have hfresh : LineMark.refusal? (v.render lang script).mark? ⟨l.number, kind⟩ = none := rfl
  have hshown : lineRange? (v.render lang script).text (l.number - 1) = some range := hrange
  rw [markLine, if_neg (not_not_intro hmem), hfresh, hshown, hrange]
  rfl

/-- What is promised of the mark that a view shows on the command line `l` of the script. -/
structure MarksLine (script : List Char) (l : CommandLine) (v : TextView) : Prop where
  /-- Some characters are marked. -/
  isSome_markRange : v.markRange?.isSome = true
  /-- They are those of the line exactly if no break but a line feed stands up to its end. -/
  span_iff : v.markRange? = some (l.span script) ↔
    ∀ line ∈ (splitLines script).take l.number, Unbroken line
  /-- In this case they are the text of the line. -/
  text_eq : ∀ start stop, v.markRange? = some (start, stop) →
    (∀ line ∈ (splitLines script).take l.number, Unbroken line) →
    (script.drop start).take (stop - start) = l.text

/-- **The characters that a mark covers** are those of the command line that was to be marked, as
long as the screen breaks the text up to there at its line feeds only. -/
theorem marksLine_render (v : TextView) (hnormal : '\r' ∉ script)
    (hl : l ∈ Script.commandLines lang script) (kind : MarkKind) :
    ((v.render lang script).markLine ⟨l.number, kind⟩).2 = .applied ∧
      MarksLine script l ((v.render lang script).markLine ⟨l.number, kind⟩).1 := by
  obtain ⟨rank, hrank⟩ := List.getElem?_of_mem hl
  obtain ⟨front, back, hp⟩ := Script.exists_placed lang hrank
  have hfront : (splitLines script).take l.index = front := by
    rw [hp.lines_eq, hp.index_eq, List.take_left]
  have hupto : (splitLines script).take l.number = front ++ [l.text] := by
    rw [hp.lines_eq, CommandLine.number, hp.index_eq, List.take_length_add_append]
    rfl
  have hiff := lineRange?_eq_iff hnormal hp.lines_eq
  have hspan : l.span script = (lineOffset front, lineOffset front + l.text.length) := by
    rw [CommandLine.span, hfront]
  refine ⟨?_, ?_⟩
  · rw [markLine_render, if_pos (List.mem_map_of_mem hl)]
  · refine ⟨?_, ?_, ?_⟩ <;> rw [markRange?_markLine_render v hl kind]
    · exact isSome_lineRange? (Script.index_lt_of_mem_commandLines hl)
    · rw [hspan, hupto, hp.index_eq]
      exact hiff
    · intro start stop hrange hunbroken
      rw [hupto] at hunbroken
      rw [hp.index_eq, hiff.2 hunbroken] at hrange
      obtain ⟨rfl, rfl⟩ := Prod.mk.inj (Option.some.inj hrange)
      rw [Nat.add_sub_cancel_left]
      exact take_drop_lineOffset hp.lines_eq

/-- The mark on a line with characters of two and three bytes above it. -/
theorem marksLine_render_wide :
    let script := "步骤:\n等待 [1] # é\n\t返回\n".toList
    let l : CommandLine := ⟨2, "\t返回".toList, .back⟩
    let answer := (TextView.empty.render .standard script).markLine ⟨3, .executing⟩
    '\r' ∉ script ∧ l ∈ Script.commandLines .standard script ∧ answer.2 = .applied ∧
      MarksLine script l answer.1 ∧ answer.1.markRange? = some (15, 18) ∧
      (script.drop 15).take (18 - 15) = l.text := by
  intro script l answer
  have hnormal : '\r' ∉ script := by decide
  have hl : l ∈ Script.commandLines .standard script := by decide
  obtain ⟨happlied, hmarks⟩ := marksLine_render TextView.empty hnormal hl .executing
  have hrange : answer.1.markRange? = some (15, 18) := rfl
  have hunbroken : ∀ line ∈ (splitLines script).take l.number, Unbroken line :=
    countP_closedLines_eq_iff.1 rfl
  exact ⟨hnormal, hl, happlied, hmarks, hrange, hmarks.text_eq 15 18 hrange hunbroken⟩

/-- A separator that is no line feed, in the header: the mark on the third line covers the second
one. -/
theorem not_markRange_separator :
    let script := "用例: a\u2028b\n步骤:\n返回".toList
    let l : CommandLine := ⟨2, "返回".toList, .back⟩
    let answer := (TextView.empty.render .standard script).markLine ⟨3, .executing⟩
    '\r' ∉ script ∧ l ∈ Script.commandLines .standard script ∧ l.number = 3 ∧
      answer.2 = .applied ∧ answer.1.markRange? = some (8, 11) ∧
      (script.drop 8).take (11 - 8) = "步骤:".toList ∧
      (script.drop 8).take (11 - 8) ≠ l.text := by
  intro script l answer
  exact ⟨by decide, by decide, rfl, rfl, rfl, rfl, by decide⟩

end TextView

end StepScript
