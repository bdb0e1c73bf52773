import StepScript.Proofs.CanonicalLine
import StepScript.Proofs.LineEdits
import StepScript.Proofs.ParameterEdit

/-!
# Updating one parameter in a script

A successful update of a parameter rewrites one line in canonical form. In the standard language it
changes the edited command alone exactly if the new value holds no line feed and the edited command
is rereadable: a value is checked on its own, so that a line feed in it, or a brace or a bracket in
the parameters beside it, can still change what the line is read as.

Main statements:

* `updateParam_changesOnly_iff` — when an update changes the edited command alone;
* `updateParam_changesOnly_of_wellFormed` — it does beside well-formed parameters.
-/

set_option autoImplicit false

namespace StepScript.Script

open Text

variable {script script' : List Char} {index : Nat} {name value : List Char}

/-! ## The parameters of a line -/

theorem listed_of_mem_lineParams {lang : Language} {line : List Char} {p : Parameter}
    (h : p ∈ lineParams lang line) : p.Listed := by
  unfold lineParams at h
  split at h
  · next k rest hstart =>
    unfold paramsOf at h
    cases hbody : listBody? (trimStart rest) with
    | none => simp [hbody] at h
    | some inner =>
        rw [hbody] at h
        exact Parameter.listed_of_mem_ofList h
  · simp at h

/-- The parameters of a line hold no character that the line does not hold. -/
theorem not_mem_lineParams {lang : Language} {line : List Char} {d : Char} (hd : d ≠ ',')
    (h : d ∉ line) : ∀ p ∈ lineParams lang line, d ∉ p.raw := by
  have hle := rawCount_lineParams_le hd lang line
  obtain ⟨comment, hcode⟩ := lang.exists_code_append line
  have hcount : (lang.code line).count d = 0 := by
    refine List.count_eq_zero_of_not_mem fun hmem => h ?_
    rw [hcode]
    exact List.mem_append_left _ hmem
  rw [hcount] at hle
  exact Parameter.rawCount_eq_zero_iff.1 (Nat.le_zero.1 hle)

/-! ## Commands around a command line -/

/-- The commands of a script around one of its command lines. -/
theorem Placed.parse_eq {rank : Nat} {l : CommandLine} {front back : List (List Char)}
    (h : Placed Language.standard script rank l front back) :
    parse Language.standard script =
      (commandsAmong Language.standard false 0 front).map (readLine Language.standard) ++
        readLine Language.standard l ::
          (commandsAmong Language.standard true (front.length + 1) back).map
            (readLine Language.standard) := by
  rw [parse_eq_map Language.commentApart_standard, h.commandLines_eq, List.map_append,
    List.map_cons]

theorem Placed.getElem?_parse {rank : Nat} {l : CommandLine} {front back : List (List Char)}
    (h : Placed Language.standard script rank l front back) :
    (parse Language.standard script)[rank]? = some (readLine Language.standard l) := by
  rw [parse_eq_map Language.commentApart_standard, List.getElem?_map, h.getElem?, Option.map_some]

/-- A line with the same keyword and the same parameters, in place of a command line, leaves all
commands as they are. -/
theorem Placed.parse_set {rank : Nat} {l : CommandLine} {front back : List (List Char)}
    (h : Placed Language.standard script rank l front back) {text : List Char}
    (hcommand : IsCommandText Language.standard text l.keyword) (hnewline : '\n' ∉ text)
    (hparams : lineParams Language.standard text = lineParams Language.standard l.text) :
    parse Language.standard (joinLines (front ++ text :: back)) =
      parse Language.standard script := by
  have hread : readLine Language.standard ⟨l.index, text, l.keyword⟩ =
      readLine Language.standard l := by
    rw [readLine, readLine, hparams]
    rfl
  rw [(h.set hcommand hnewline).parse_eq, h.parse_eq, hread]

/-- Lists that differ in one place agree in all others. -/
theorem getElem?_append_cons_of_ne {α : Type} (front back : List α) (x y : α) {i : Nat}
    (h : i ≠ front.length) : (front ++ y :: back)[i]? = (front ++ x :: back)[i]? := by
  rw [← set_length_append front back x y, List.getElem?_set_ne h.symm]

/-! ## Updates -/

/-- An update edits the command that is read from a line, and puts it on that line. -/
theorem Placed.updateParam_eq {l : CommandLine} {front back : List (List Char)}
    (h : Placed Language.standard script index l front back) (name value : List Char) :
    updateParam Language.standard script index name value =
      ((readLine Language.standard l).withParam name value).map fun c =>
        joinLines (front ++ (indentation l.text ++ c.toLine) :: back) := by
  have hread := h.command.parseLine_eq Language.commentApart_standard l.number
  rw [updateParam, h.commandLine_eq]
  simp only [hread]
  rw [readLine]
  split
  · next err herr =>
    rw [herr]
    rfl
  · next c hc =>
    rw [hc, mapLines, h.lines_eq, h.index_eq, set_length_append]
    rfl

/-- A successful update puts the edited command on the line of the old one. -/
theorem exists_of_updateParam
    (h : updateParam Language.standard script index name value = .ok script') :
    ∃ l front back c, Placed Language.standard script index l front back ∧
      (readLine Language.standard l).withParam name value = .ok c ∧
      script' = joinLines (front ++ (indentation l.text ++ c.toLine) :: back) := by
  by_cases hlt : index < count Language.standard script
  · obtain ⟨l, front, back, hp⟩ := exists_placed_of_lt hlt
    rw [hp.updateParam_eq] at h
    cases hc : (readLine Language.standard l).withParam name value with
    | error err =>
        rw [hc] at h
        cases h
    | ok c =>
        rw [hc] at h
        exact ⟨l, front, back, c, hp, hc, (Except.ok.inj h).symm⟩
  · rw [updateParam, commandLine_of_le (Nat.le_of_not_lt hlt)] at h
    cases h

/-- A line in place of a command line leaves the number of lines as it is unless it holds a line
feed. -/
theorem Placed.length_splitLines_set {rank : Nat} {l : CommandLine} {front back : List (List Char)}
    (h : Placed Language.standard script rank l front back) (line : List Char) :
    (splitLines (joinLines (front ++ line :: back))).length =
      (splitLines script).length + line.count '\n' := by
  have hold := count_joinLines (show front ++ l.text :: back ≠ [] by simp)
  have hnew := count_joinLines (show front ++ line :: back ≠ [] by simp)
  have htext : l.text.count '\n' = 0 := List.count_eq_zero_of_not_mem h.newline_not_mem_text
  rw [← h.lines_eq, joinLines_splitLines, h.lines_eq] at hold
  rw [length_splitLines, length_splitLines]
  simp only [List.flatten_append, List.flatten_cons, List.count_append, List.length_append,
    List.length_cons] at hold hnew
  omega

/-- What an update should do: it changes the content of the command with a given index to that of
`c`, and nothing else. -/
structure ChangesOnly (script script' : List Char) (index : Nat) (c : Command) : Prop where
  /-- There are as many lines as before. -/
  length_lines : (splitLines script').length = (splitLines script).length
  /-- All lines but the edited one are what they were. -/
  other_lines : ∀ l ∈ (commandLines Language.standard script)[index]?, ∀ i, i ≠ l.index →
    (splitLines script')[i]? = (splitLines script)[i]?
  /-- There are as many commands as before, and they stand on the same lines. -/
  numbers : (parse Language.standard script').map Command.line =
    (parse Language.standard script).map Command.line
  /-- All commands but the edited one are what they were. -/
  others : ∀ i, i ≠ index →
    (parse Language.standard script')[i]? = (parse Language.standard script)[i]?
  /-- The edited command has the content of `c`. -/
  edited : ∃ d, (parse Language.standard script')[index]? = some d ∧ d.sameContent c = true

section ChangesOnly

variable {l : CommandLine} {front back : List (List Char)} {c : Command}

/-- A rereadable command on the line of another one changes that one alone. -/
theorem Placed.changesOnly (h : Placed Language.standard script index l front back)
    (hlisted : ∀ p ∈ c.params, p.Listed) (hnewline : '\n' ∉ c.toLine) (hc : c.Rereadable) :
    ChangesOnly script (joinLines (front ++ (indentation l.text ++ c.toLine) :: back)) index c := by
  have hblank := allBlank_indentation l.text
  have hline : '\n' ∉ indentation l.text ++ c.toLine := by
    simp [h.newline_not_mem_indentation, hnewline]
  -- the new line is a command line, so that the commands around it stay in place
  have hnew := h.set (Command.isCommandText_toLine hblank c) hline
  have hread := (Command.lineParams_toLine_iff hblank hlisted).2 hc
  constructor
  · rw [h.length_splitLines_set, List.count_eq_zero_of_not_mem hline, Nat.add_zero]
  · intro m hm i hi
    obtain rfl : l = m := by
      rw [h.getElem?] at hm
      exact Option.some.inj hm
    rw [hnew.lines_eq, h.lines_eq]
    exact getElem?_append_cons_of_ne front back _ _ (h.index_eq ▸ hi)
  · rw [hnew.parse_eq, h.parse_eq, List.map_append, List.map_append, List.map_cons, List.map_cons]
    rfl
  · intro i hi
    rw [hnew.parse_eq, h.parse_eq]
    refine getElem?_append_cons_of_ne _ _ _ _ ?_
    rw [List.length_map, h.rank_eq]
    exact hi
  · refine ⟨_, hnew.getElem?_parse, ?_⟩
    rw [Command.sameContent_iff]
    exact ⟨rfl, hread⟩

/-- If a command on the line of another one changes that one alone, it is read back. -/
theorem Placed.rereadable_of_changesOnly
    (h : Placed Language.standard script index l front back) (hlisted : ∀ p ∈ c.params, p.Listed)
    (hchanges : ChangesOnly script (joinLines (front ++ (indentation l.text ++ c.toLine) :: back))
      index c) : '\n' ∉ c.toLine ∧ c.Rereadable := by
  have hblank := allBlank_indentation l.text
  -- a line feed in the new line would add a line
  have hcount := hchanges.length_lines
  rw [h.length_splitLines_set] at hcount
  have hline : '\n' ∉ indentation l.text ++ c.toLine := List.count_eq_zero.1 (by omega)
  have hnew := h.set (Command.isCommandText_toLine hblank c) hline
  obtain ⟨d, hd, hsame⟩ := hchanges.edited
  rw [hnew.getElem?_parse] at hd
  obtain rfl := Option.some.inj hd
  refine ⟨fun hmem => hline (List.mem_append_right _ hmem), ?_⟩
  exact (Command.lineParams_toLine_iff hblank hlisted).1 (Command.sameContent_iff.1 hsame).2

end ChangesOnly

/-- A successful update changes the edited command alone exactly if the value holds no line feed and
the edited command is rereadable. -/
theorem updateParam_changesOnly_iff
    (h : updateParam Language.standard script index name value = .ok script') :
    ∃ c c', (parse Language.standard script)[index]? = some c ∧
      c.withParam name value = .ok c' ∧
      (ChangesOnly script script' index c' ↔ '\n' ∉ trim value ∧ c'.Rereadable) := by
  obtain ⟨l, front, back, c, hp, hc, rfl⟩ := exists_of_updateParam h
  have hlisted : ∀ p ∈ c.params, p.Listed :=
    Command.listed_withParam hc fun p hmem => listed_of_mem_lineParams hmem
  have hnewline : '\n' ∉ c.toLine ↔ '\n' ∉ trim value := by
    rw [← Command.newline_not_mem_withParam_iff hc
      (not_mem_lineParams (by decide) hp.newline_not_mem_text)]
    exact Command.newline_not_mem_toLine_iff
  refine ⟨_, c, hp.getElem?_parse, hc, fun hchanges => ?_, fun ⟨hvalue, hreread⟩ => ?_⟩
  · obtain ⟨hline, hreread⟩ := hp.rereadable_of_changesOnly hlisted hchanges
    exact ⟨hnewline.1 hline, hreread⟩
  · exact hp.changesOnly hlisted (hnewline.2 hvalue) hreread

theorem updateParam_changesOnly_iff_pause :
    let script := "步骤:\n\t等待 [500]  # 片刻".toList
    let script' := "步骤:\n\t等待 [800]".toList
    let name := "时长/ms".toList
    let value := " 800".toList
    updateParam Language.standard script 0 name value = .ok script' ∧
      ∃ c c', (parse Language.standard script)[0]? = some c ∧ c.withParam name value = .ok c' ∧
        (ChangesOnly script script' 0 c' ↔ '\n' ∉ trim value ∧ c'.Rereadable) :=
  ⟨by decide, updateParam_changesOnly_iff (by decide)⟩

/-- A line feed in a value is accepted, and breaks the line in two. -/
theorem not_changesOnly_line_feed :
    let script := "步骤:\n输入 [\x7ba\x7d, b]".toList
    let script' := "步骤:\n输入 [\x7ba\x7d, x\ny]".toList
    updateParam Language.standard script 0 "文本".toList "x\ny".toList = .ok script' ∧
      ∀ c, ¬ ChangesOnly script script' 0 c := by
  refine ⟨by decide, fun c h => ?_⟩
  have hlines := h.length_lines
  revert hlines
  decide

/-- Beside well-formed parameters, a value of one line changes the edited command alone. -/
theorem updateParam_changesOnly_of_wellFormed
    (h : updateParam Language.standard script index name value = .ok script')
    (hwell : ∀ c ∈ (parse Language.standard script)[index]?, ∀ p ∈ c.params, p.WellFormed)
    (hvalue : '\n' ∉ trim value) :
    ∃ c c', (parse Language.standard script)[index]? = some c ∧ c.withParam name value = .ok c' ∧
      ChangesOnly script script' index c' := by
  obtain ⟨l, front, back, c, hp, hc, rfl⟩ := exists_of_updateParam h
  have hwell' := Command.wellFormed_withParam hc (hwell _ hp.getElem?_parse)
  have hnewline : '\n' ∉ c.toLine := Command.newline_not_mem_toLine_iff.2 <|
    (Command.newline_not_mem_withParam_iff hc
      (not_mem_lineParams (by decide) hp.newline_not_mem_text)).2 hvalue
  exact ⟨_, c, hp.getElem?_parse, hc,
    hp.changesOnly (fun p hmem => (hwell' p hmem).listed) hnewline
      (Command.rereadable_of_wellFormed hwell')⟩

end StepScript.Script
