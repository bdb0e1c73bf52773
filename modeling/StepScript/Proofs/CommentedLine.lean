import StepScript.Proofs.Braces
import StepScript.Proofs.ContentEdits
import StepScript.Proofs.LineRoles
import StepScript.Proofs.ParameterUpdate
import StepScript.Proofs.Uncommented

/-!
# A comment behind a command

A comment that is put behind a command line is cut off again when the line is read, if the braces of
the line match and its list is closed. Whether the line is a command line at all is decided before
that, on the line with its comment: a keyword has to be followed by a list, by a blank or by nothing.
So the comment leaves all commands as they are, except on a **bare** line, on which the comment would
stand right behind the keyword. Such a line is skipped from then on, although it still reads as the
command when it is read on its own.

Main statements:

* `Script.isCommandText_append_hash_iff` — which lines are command lines with a comment behind them;
* `Script.Placed.parse_commentBehind` — the commands of a script with a comment behind a command;
* `Script.commentEffect_of_closed` — when a comment is ignored, and what it does if it is not.
-/

set_option autoImplicit false

namespace StepScript

open Text

/-- Whether nothing stands behind the keyword of a command line, not even a blank. -/
def CommandLine.Bare (l : CommandLine) : Prop :=
  trimStart l.text = l.keyword.spelling

instance (l : CommandLine) : Decidable l.Bare :=
  inferInstanceAs (Decidable (_ = _))

namespace Script

variable {script : List Char} {rank : Nat} {l : CommandLine} {front back : List (List Char)}

/-! ## Lines that leave nothing open -/

/-- The list of a line, if it has one, is closed. -/
def ListClosed (line : List Char) : Prop :=
  (Nesting.outside.after (Language.standard.code line)).inList = false

instance (line : List Char) : Decidable (ListClosed line) :=
  inferInstanceAs (Decidable (_ = _))

/-- The code of a line with matching braces and a closed list leaves nothing open. -/
theorem ListClosed.after_code {line : List Char} (h : ListClosed line)
    (hbraces : BracesMatch line) :
    Nesting.outside.after (Language.standard.code line) = .outside := by
  cases hcut : Language.standard.cutComment line with
  | some p =>
      rw [Language.code, hcut]
      exact Language.after_eq_outside_of_cutComment hcut
  | none =>
      have hcode := Language.code_of_cutComment_eq_none hcut
      have hdepth : (Nesting.outside.after line).depth = 0 := by
        rw [Nesting.depth_after]
        exact hbraces.braceDepth_eq_zero
      rw [ListClosed, hcode] at h
      rw [hcode]
      exact Nesting.eq_outside_of_isOutside (by simp [Nesting.isOutside, hdepth, h])

/-! ## Command lines with a comment -/

section IsCommandText

variable {text : List Char} {k : Keyword}

/-- A command line starts with its keyword, behind its indentation. -/
theorem IsCommandText.exists_trimStart (h : IsCommandText .standard text k) :
    ∃ rest, trimStart text = k.spelling ++ rest ∧ Keyword.endsBefore rest = true := by
  obtain ⟨rest, htrim, hends⟩ := h.exists_rest
  obtain ⟨b, hb, hstart⟩ := exists_trimEnd (trimStart text)
  rw [← trim, htrim, List.append_assoc] at hstart
  exact ⟨rest ++ b, hstart, Keyword.endsBefore_append_of_allBlank hends hb⟩

/-- A text behind a line that starts with a keyword. -/
theorem trim_append_of_trimStart {rest : List Char} (h : trimStart text = k.spelling ++ rest)
    (t : List Char) : trim (text ++ t) = k.spelling ++ trimEnd (rest ++ t) := by
  have htext : text ++ t = indentation text ++ (k.spelling ++ (rest ++ t)) ++ [] := by
    rw [List.append_nil, ← List.append_assoc k.spelling, ← h, ← List.append_assoc,
      indentation_append_trimStart]
  rw [htext, trim_blank_append_blank _ (allBlank_indentation text) allBlank_nil,
    Keyword.trim_spelling_append]

/-- A command line stays one with a comment behind it, if anything stands between the keyword and
the comment. -/
theorem IsCommandText.append_hash (h : IsCommandText .standard text k)
    (hbare : trimStart text ≠ k.spelling) (comment : List Char) :
    IsCommandText .standard (text ++ '#' :: comment) k := by
  obtain ⟨rest, hstart, hends⟩ := h.exists_trimStart
  refine Lexer.isCommandText_of_trim Language.stepsApart_standard Language.commentApart_standard
    (trim_append_of_trimStart hstart _) ?_
  cases rest with
  | nil => exact absurd (hstart.trans (List.append_nil _)) hbare
  | cons c rest =>
      obtain ⟨b, -, hb⟩ := exists_trimEnd (c :: rest ++ '#' :: comment)
      exact Keyword.endsBefore_of_prefixed ⟨b, hb.symm⟩ hends

/-- A keyword with a comment right behind it is no command line. -/
theorem not_isCommandText_append_hash (hbare : trimStart text = k.spelling) (comment : List Char)
    (j : Keyword) : ¬ IsCommandText .standard (text ++ '#' :: comment) j := by
  intro h
  obtain ⟨rest, htrim, hends⟩ := h.exists_rest
  rw [trim_append_of_trimStart (hbare.trans (List.append_nil _).symm), List.nil_append] at htrim
  obtain ⟨-, rfl⟩ := Keyword.eq_of_spelling_append_eq htrim
  -- what follows the keyword still starts with the hash mark
  have hhead : trimEnd ('#' :: comment) ≠ [] := fun hnil => by
    have hblank := allBlank_iff.1 (trimEnd_eq_nil.1 hnil) '#' List.mem_cons_self
    revert hblank
    decide
  obtain ⟨b, -, hb⟩ := exists_trimEnd ('#' :: comment)
  obtain ⟨c, s, hcs⟩ := List.exists_cons_of_ne_nil hhead
  rw [hcs, List.cons_append] at hb
  obtain ⟨rfl, -⟩ := List.cons.inj hb
  rw [hcs] at hends
  exact Bool.false_ne_true hends

/-- **Which command lines stay command lines** with a comment behind them. -/
theorem isCommandText_append_hash_iff (h : IsCommandText .standard text k) (comment : List Char) :
    IsCommandText .standard (text ++ '#' :: comment) k ↔ trimStart text ≠ k.spelling :=
  ⟨fun hnew hbare => not_isCommandText_append_hash hbare comment k hnew,
    fun hbare => h.append_hash hbare comment⟩

end IsCommandText

/-! ## A script with a comment behind a command -/

/-- A script with a comment behind one of its command lines. -/
def commentBehind (script : List Char) (l : CommandLine) (comment : List Char) : List Char :=
  mapLines (fun lines => lines.set l.index (l.text ++ '#' :: comment)) script

theorem Placed.commentBehind_eq (h : Placed .standard script rank l front back)
    (comment : List Char) :
    commentBehind script l comment = joinLines (front ++ (l.text ++ '#' :: comment) :: back) := by
  rw [commentBehind, mapLines, h.lines_eq, h.index_eq, set_length_append]

/-- A line that is no command line in place of a command line. -/
theorem Placed.parse_of_not_isCommandText (h : Placed .standard script rank l front back)
    {text : List Char} (hnewline : '\n' ∉ text) (htext : ∀ j, ¬ IsCommandText .standard text j) :
    parse .standard (joinLines (front ++ text :: back)) = (parse .standard script).eraseIdx rank := by
  have hlines := h.splitLines_joinLines (List.forall_mem_singleton.2 hnewline)
  have hnone : commandAt? .standard true (0 + front.length) text = none := by
    by_contra hsome
    obtain ⟨m, hm⟩ := Option.ne_none_iff_exists'.1 hsome
    obtain ⟨-, hmtext, -, hcmd⟩ := eq_of_commandAt? hm
    exact htext m.keyword (hmtext ▸ hcmd)
  rw [List.append_assoc, List.singleton_append] at hlines
  rw [parse_eq_map Language.commentApart_standard, Script.commandLines_eq, hlines,
    commandsAmong_append, h.marker, Bool.or_true, commandsAmong_cons, hnone, Option.toList_none,
    List.nil_append, Bool.true_or, Nat.zero_add, List.map_append, h.parse_eq, ← h.rank_eq,
    ← List.length_map (readLine .standard), eraseIdx_length_append]

/-- **The commands of a script with a comment behind a command**: all of them, or all others if the
line is bare. -/
theorem Placed.parse_commentBehind (h : Placed .standard script rank l front back)
    (hopen : Nesting.outside.after (Language.standard.code l.text) = .outside)
    {comment : List Char} (hcomment : '\n' ∉ comment) :
    parse .standard (commentBehind script l comment) =
      if l.Bare then (parse .standard script).eraseIdx rank else parse .standard script := by
  have hnewline : '\n' ∉ l.text ++ '#' :: comment := by
    simp [h.newline_not_mem_text, hcomment]
  rw [h.commentBehind_eq]
  split
  · next hbare =>
    exact h.parse_of_not_isCommandText hnewline (not_isCommandText_append_hash hbare comment)
  · next hbare =>
    refine h.parse_set (h.command.append_hash hbare comment) hnewline ?_
    -- the new line has the code of the old one
    rw [lineParams, lineParams, Language.code_append_hash hopen]

/-! ## When a comment is ignored -/

/-- The commands of two scripts are the same, wherever they stand. -/
structure CommentIgnored (script script' : List Char) : Prop where
  count_eq : count .standard script' = count .standard script
  contents_eq : contents script' = contents script

/-- What is promised of a comment behind the command line `l`, which has a given rank. -/
structure CommentEffect (script : List Char) (rank : Nat) (l : CommandLine)
    (comment : List Char) : Prop where
  /-- Read on its own, the line is what it was. -/
  read_eq : ∀ number, parseLine .standard (l.text ++ '#' :: comment) number =
    parseLine .standard l.text number
  ignored_iff : CommentIgnored script (commentBehind script l comment) ↔ ¬ l.Bare
  /-- Behind any other line, the comment leaves every command on its line. -/
  unchanged : ¬ l.Bare → parse .standard (commentBehind script l comment) = parse .standard script
  /-- Behind a bare line, it takes the command away. -/
  skipped : l.Bare →
    parse .standard (commentBehind script l comment) = (parse .standard script).eraseIdx rank

/-- **A comment behind a command line is ignored unless the line is bare**, if the braces of the line
match and its list is closed. -/
theorem commentEffect_of_closed (hl : (commandLines .standard script)[rank]? = some l)
    (hbraces : BracesMatch l.text) (hlist : ListClosed l.text) {comment : List Char}
    (hcomment : '\n' ∉ comment) : CommentEffect script rank l comment := by
  obtain ⟨front, back, hp⟩ := exists_placed .standard hl
  have hopen := hlist.after_code hbraces
  have hparse := hp.parse_commentBehind hopen hcomment
  refine ⟨fun number => ?_, ⟨fun hignored hbare => ?_, fun hbare => ?_⟩, fun hbare => ?_,
    fun hbare => ?_⟩
  · rw [parseLine, parseLine, Language.code_append_hash hopen]
  · -- one command is missing
    have hlt := hp.rank_lt
    have hlength := congrArg List.length hparse
    rw [if_pos hbare, List.length_eraseIdx, length_parse Language.commentApart_standard,
      length_parse Language.commentApart_standard, if_pos hlt, hignored.count_eq] at hlength
    omega
  · have hcontents : contents (commentBehind script l comment) = contents script := by
      rw [contents, contents, hparse, if_neg hbare]
    exact ⟨by rw [← length_contents, hcontents, length_contents], hcontents⟩
  · rw [hparse, if_neg hbare]
  · rw [hparse, if_pos hbare]

/-- A comment behind a list with braces and a hash mark in it, and behind another comment. -/
theorem commentEffect_of_closed_list :
    let script := "步骤:\n\t输入 [\x7b#a\x7d, C#] # x\n返回".toList
    let l : CommandLine := ⟨1, "\t输入 [\x7b#a\x7d, C#] # x".toList, .input⟩
    (commandLines .standard script)[0]? = some l ∧ BracesMatch l.text ∧ ListClosed l.text ∧
      '\n' ∉ "] \x7b".toList ∧ CommentEffect script 0 l "] \x7b".toList := by
  intro script l
  have hl : (commandLines .standard script)[0]? = some l := by decide
  have hbraces : BracesMatch l.text := by decide
  have hlist : ListClosed l.text := by decide
  have hcomment : '\n' ∉ "] \x7b".toList := by decide
  exact ⟨hl, hbraces, hlist, hcomment, commentEffect_of_closed hl hbraces hlist hcomment⟩

/-- A comment right behind a bare keyword takes the command away. -/
theorem not_commentIgnored_bare :
    let script := "步骤:\n返回".toList
    let l : CommandLine := ⟨1, "返回".toList, .back⟩
    (commandLines .standard script)[0]? = some l ∧ BracesMatch l.text ∧ ListClosed l.text ∧
      commentBehind script l "x".toList = "步骤:\n返回#x".toList ∧
      ¬ CommentIgnored script (commentBehind script l "x".toList) := by
  intro script l
  refine ⟨by decide, by decide, by decide, by decide, fun h => ?_⟩
  have hcount := h.count_eq
  revert hcount
  decide

end Script

end StepScript
