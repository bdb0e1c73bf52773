import StepScript.Proofs.CommandText
import StepScript.Proofs.ParameterList

/-!
# Canonical lines

The canonical line of a command is a command line of the standard language, whatever the raw
parameters are. Reading it back gives the parameters of the command exactly if no parameter but the
last leaves a brace open and the comment scan finds nothing on the line.

Main statements:

* `isCommandText_toLine` — a canonical line starts with its keyword;
* `lineParams_toLine_iff` — when the parameters are read back;
* `rereadable_of_wellFormed` — well-formed parameters are read back.
-/

set_option autoImplicit false

namespace StepScript

open Text Parameter

/-! ## Scanning a list for comments -/

namespace Nesting

/-- Braces are counted in the same way by the comment scan and by the list scan. -/
theorem next_inList {c : Char} (depth : Nat) (h : c ≠ ']') :
    Nesting.next ⟨depth, true⟩ c = ⟨braceStep depth c, true⟩ := by
  unfold next braceStep
  split
  · rfl
  · split
    · rfl
    · split
      · rfl
      · rw [if_neg (fun hc => h hc.1)]

end Nesting

/-- In a list that is not closed, no comment starts. -/
theorem skips_inList {token s : List Char} (depth : Nat) (h : ']' ∉ s) :
    Skips token ⟨depth, true⟩ s := by
  induction s generalizing depth with
  | nil => exact Skips.nil
  | cons c s ih =>
      refine Skips.cons (fun t => startsComment_of_not_isOutside _ (by simp [Nesting.isOutside])) ?_
      rw [Nesting.next_inList depth fun hc => h (hc ▸ List.mem_cons_self)]
      exact ih _ fun hmem => h (List.mem_cons_of_mem _ hmem)

theorem hash_not_mem_spelling (k : Keyword) : '#' ∉ k.spelling := by
  cases k <;> decide

/-! ## The parts of a canonical line -/

namespace Command

def listText (c : Command) : List Char :=
  if c.params.isEmpty then [] else ' ' :: '[' :: joinRaws c.params ++ [']']

variable {c : Command}

theorem toLine_eq (c : Command) : c.toLine = c.keyword.spelling ++ c.listText := by
  unfold toLine listText
  split
  · rw [List.append_nil]
  · rw [List.append_assoc]

theorem trimEnd_listText (c : Command) : trimEnd c.listText = c.listText := by
  unfold listText
  split
  · rfl
  · exact trimEnd_append_singleton (' ' :: '[' :: joinRaws c.params) (by decide)

theorem endsBefore_listText (c : Command) : Keyword.endsBefore c.listText = true := by
  unfold listText
  split
  · rfl
  · rfl

theorem trim_toLine (c : Command) : trim c.toLine = c.toLine := by
  rw [toLine_eq, Keyword.trim_spelling_append, trimEnd_listText]

theorem trim_blank_append_toLine {a : List Char} (ha : allBlank a = true) :
    trim (a ++ c.toLine) = c.toLine := by
  have h := trim_blank_append_blank c.toLine ha allBlank_nil
  rw [List.append_nil] at h
  rw [h, trim_toLine]

/-- What follows the keyword is read as the joined parameters. -/
theorem paramsOf_listText (c : Command) :
    Script.paramsOf (trimStart c.listText) = ofList (joinRaws c.params) := by
  unfold listText
  split
  · next h =>
    rw [List.isEmpty_iff.1 h]
    rfl
  · have hstart : trimStart (' ' :: '[' :: joinRaws c.params ++ [']']) =
        '[' :: (joinRaws c.params ++ [']']) := rfl
    rw [hstart, Script.paramsOf, Script.listBody?, cutAt, if_pos rfl]
    simp [dropLast?]

/-- Only the parameters can hold characters that the canonical form does not add itself. -/
theorem count_toLine {d : Char} (hk : d ∉ c.keyword.spelling) (hform : d ∉ [' ', '[', ',', ']']) :
    c.toLine.count d = rawCount d c.params := by
  simp only [List.mem_cons, List.not_mem_nil, or_false, not_or] at hform
  obtain ⟨hspace, hopen, hcomma, hclose⟩ := hform
  rw [toLine_eq, List.count_append, List.count_eq_zero_of_not_mem hk, Nat.zero_add]
  unfold listText
  split
  · next h =>
    rw [List.isEmpty_iff.1 h]
    rfl
  · rw [List.cons_append, List.cons_append, List.count_cons_of_ne (Ne.symm hspace),
      List.count_cons_of_ne (Ne.symm hopen), List.count_append, count_joinRaws hcomma hspace,
      List.count_cons_of_ne (Ne.symm hclose), List.count_nil, Nat.add_zero]

/-- The canonical line of a command is one line exactly if the raw parameters are. -/
theorem newline_not_mem_toLine_iff : '\n' ∉ c.toLine ↔ ∀ p ∈ c.params, '\n' ∉ p.raw := by
  rw [← List.count_eq_zero, ← rawCount_eq_zero_iff,
    count_toLine (Keyword.newline_not_mem_spelling c.keyword) (by decide)]

/-! ## Canonical lines among the steps -/

/-- A canonical line is a command line of the standard language, whatever its parameters are. -/
theorem isCommandText_toLine {a : List Char} (ha : allBlank a = true) (c : Command) :
    Script.IsCommandText Language.standard (a ++ c.toLine) c.keyword := by
  have htrim := trim_blank_append_toLine (c := c) ha
  obtain ⟨d, s, hs, hmarker, hcomment⟩ :
      ∃ d s, c.keyword.spelling = d :: s ∧ d ≠ '步' ∧ d ≠ '#' := by
    cases c.keyword <;> exact ⟨_, _, rfl, by decide, by decide⟩
  -- no keyword starts like a marker or like a comment
  constructor
  · rw [htrim, toLine_eq, hs]
    simp [Language.isMarker, Language.standard, after?, Ne.symm hmarker]
  · have hstart := Keyword.atStart?_spelling_append c.keyword (endsBefore_listText c)
    have hline : Language.standard.isComment c.toLine = false := by
      rw [toLine_eq, hs]
      simp [Language.isComment, Language.standard, after?, Ne.symm hcomment]
    have hne : c.toLine.isEmpty = false := by
      rw [toLine_eq, hs]
      rfl
    rw [htrim, Script.stepClass, hne, hline, toLine_eq, hstart]
    simp

/-! ## Reading a canonical line -/

/-- A canonical line is read as a command with the same keyword. -/
theorem parseLine_toLine_eq (c : Command) (number : Nat) :
    Script.parseLine Language.standard c.toLine number =
      some ⟨number, c.keyword, Script.lineParams Language.standard c.toLine⟩ :=
  (isCommandText_toLine allBlank_nil c).parseLine_eq Language.commentApart_standard number

/-- The parameters that a canonical line without a comment is read as. -/
theorem lineParams_toLine {a : List Char} (ha : allBlank a = true)
    (h : Language.standard.cutComment c.toLine = none) :
    Script.lineParams Language.standard (a ++ c.toLine) = ofList (joinRaws c.params) := by
  have hcode : Language.standard.code (a ++ c.toLine) = a ++ c.toLine := by
    rw [Language.commentApart_standard.code_blank_append _ ha,
      Language.code_of_cutComment_eq_none h]
  have hstart := Keyword.atStart?_spelling_append c.keyword (endsBefore_listText c)
  rw [Script.lineParams, hcode, trim_blank_append_toLine ha, toLine_eq, hstart]
  exact paramsOf_listText c

end Command

/-- A list stands between the first opening bracket and a closing bracket at the end. -/
theorem exists_of_listBody? {rest inner : List Char} (h : Script.listBody? rest = some inner) :
    ∃ before, rest = before ++ ('[' :: inner ++ [']']) ∧ '[' ∉ before := by
  obtain ⟨⟨before, closed⟩, hcut, hclose⟩ := Option.bind_eq_some_iff.1 h
  obtain ⟨rfl, hbefore⟩ := eq_of_cutAt hcut
  obtain rfl := eq_of_dropLast? hclose
  exact ⟨before, rfl, hbefore⟩

theorem count_listBody?_le {rest inner : List Char} (d : Char)
    (h : Script.listBody? rest = some inner) : inner.count d ≤ rest.count d := by
  obtain ⟨before, rfl, -⟩ := exists_of_listBody? h
  have hinner : inner <:+: before ++ ('[' :: inner ++ [']']) :=
    ⟨before ++ ['['], [']'], by simp⟩
  exact hinner.sublist.count_le d

/-- The parameters of a line hold no character more often than the line without its comment. -/
theorem rawCount_lineParams_le {d : Char} (hd : d ≠ ',') (lang : Language) (line : List Char) :
    rawCount d (Script.lineParams lang line) ≤ (lang.code line).count d := by
  unfold Script.lineParams
  split
  · next k rest hstart =>
    obtain ⟨heq, -⟩ := Keyword.eq_of_atStart? hstart
    have htrim := count_trim_le d (lang.code line)
    have hblank := congrArg (List.count d) (indentation_append_trimStart rest)
    rw [heq, List.count_append] at htrim
    rw [List.count_append] at hblank
    unfold Script.paramsOf
    cases hbody : Script.listBody? (trimStart rest) with
    | none => exact Nat.zero_le _
    | some inner =>
        have hparams := rawCount_ofList_le hd inner
        have hinner := count_listBody?_le d hbody
        rw [Option.map_some, Option.getD_some]
        omega
  · exact Nat.zero_le _

/-! ## When a canonical line is read back -/

/-- A **rereadable** command: its canonical line holds no comment, and no parameter but the last
leaves a brace open. -/
structure Command.Rereadable (c : Command) : Prop where
  closed : ∀ p ∈ c.params.dropLast, braceDepth 0 p.raw = 0
  uncommented : Language.standard.cutComment c.toLine = none

/-- A comment on a canonical line takes a part of the parameters away. -/
theorem Command.lineParams_toLine_ne {c : Command} {a : List Char} (ha : allBlank a = true)
    (h : Language.standard.cutComment c.toLine ≠ none) :
    Script.lineParams Language.standard (a ++ c.toLine) ≠ c.params := by
  intro heq
  obtain ⟨⟨code, comment⟩, hcut⟩ := Option.ne_none_iff_exists'.1 h
  have hcode : Language.standard.code (a ++ c.toLine) = a ++ code := by
    rw [Language.commentApart_standard.code_blank_append _ ha, Language.code, hcut]
  -- the comment starts with a character that is missing from the code
  have hcomment : 0 < comment.count '#' := by
    obtain ⟨s, rfl⟩ := Language.exists_cons_of_cutComment hcut
    rw [List.count_cons_self]
    exact Nat.succ_pos _
  have hblank : a.count '#' = 0 := by
    refine List.count_eq_zero_of_not_mem fun hmem => ?_
    have := allBlank_iff.1 ha _ hmem
    revert this
    decide
  have hline : c.toLine.count '#' = rawCount '#' c.params :=
    count_toLine (hash_not_mem_spelling c.keyword) (by decide)
  have hle := rawCount_lineParams_le (d := '#') (by decide) Language.standard (a ++ c.toLine)
  have hparts := congrArg (List.count '#') (Language.eq_of_cutComment hcut)
  rw [heq, ← hline, hcode, List.count_append] at hle
  rw [List.count_append] at hparts
  omega

/-- The parameters of a canonical line are those of the command exactly if it is rereadable. -/
theorem Command.lineParams_toLine_iff {c : Command} {a : List Char} (ha : allBlank a = true)
    (hlisted : ∀ p ∈ c.params, p.Listed) :
    Script.lineParams Language.standard (a ++ c.toLine) = c.params ↔ c.Rereadable := by
  constructor
  · intro heq
    have huncommented : Language.standard.cutComment c.toLine = none := by
      by_contra hcut
      exact lineParams_toLine_ne ha hcut heq
    refine ⟨fun p hp => ?_, huncommented⟩
    by_contra hopen
    have hlt := length_ofList_joinRaws_lt hlisted hp hopen
    rw [← lineParams_toLine ha huncommented, heq] at hlt
    exact Nat.lt_irrefl _ hlt
  · intro hc
    rw [lineParams_toLine ha hc.uncommented, ofList_joinRaws hlisted hc.closed]

/-- Well-formed parameters hold no closing bracket. -/
theorem Command.closingBracket_not_mem_joinRaws {c : Command}
    (h : ∀ p ∈ c.params, p.WellFormed) : ']' ∉ Command.joinRaws c.params := by
  have hzero := rawCount_eq_zero_iff.2 fun p hp => (fits_of_fitsListFrom (h p hp).fits).2.2
  rw [← count_joinRaws (by decide) (by decide)] at hzero
  exact List.count_eq_zero.1 hzero

/-- In a keyword no comment starts. -/
theorem Keyword.skips_spelling (k : Keyword) : Skips ['#'] .outside k.spelling :=
  skips_of_plain rfl (hash_not_mem_spelling k) fun _ => isDelimiter_of_mem_spelling

/-- A keyword leaves nothing open. -/
theorem Keyword.after_spelling (k : Keyword) : Nesting.outside.after k.spelling = .outside :=
  Nesting.after_of_not_isDelimiter _ fun _ => Keyword.isDelimiter_of_mem_spelling

/-- On the canonical line of well-formed parameters no comment starts. -/
theorem Command.skips_toLine {c : Command} (h : ∀ p ∈ c.params, p.WellFormed) :
    Skips Language.standard.comment .outside c.toLine := by
  have hlist : Skips ['#'] (Nesting.outside.after c.keyword.spelling) c.listText := by
    rw [Keyword.after_spelling]
    unfold Command.listText
    split
    · exact Skips.nil
    · refine Skips.cons (fun t => startsComment_of_head?_ne t rfl (by decide)) ?_
      refine Skips.cons (fun t => startsComment_of_isDelimiter t (by decide)) ?_
      refine Skips.append (skips_inList 0 (Command.closingBracket_not_mem_joinRaws h)) ?_
      exact Skips.cons (fun t => startsComment_of_isDelimiter t (by decide)) Skips.nil
  rw [Command.toLine_eq]
  exact c.keyword.skips_spelling.append hlist

/-- Well-formed parameters are read back. -/
theorem Command.rereadable_of_wellFormed {c : Command} (h : ∀ p ∈ c.params, p.WellFormed) :
    c.Rereadable := by
  refine ⟨fun p hp => (h p ((List.dropLast_sublist c.params).subset hp)).closed, ?_⟩
  rw [Language.cutComment_of_comment_ne_nil (by decide)]
  exact cutCommentFrom_of_skips (Command.skips_toLine h)

end StepScript
