import StepScript.Proofs.Braces
import StepScript.Proofs.CanonicalLine

/-!
# Round trips of lines

A command whose parameters are items of a list is read back from its canonical line, and also where
that line is indented and has a comment behind it. The comment scan passes the line without finding
a comment in it, and leaves it with nothing open, so that the scan goes on behind the line as it
would at the start of one.

Main statements:

* `Command.after_toLine` — the canonical line of well-formed parameters leaves nothing open;
* `Command.code_toLine_comment` — the code of a canonical line with a comment;
* `Script.parseLine_toLine_comment` — both lines are read as the command.
-/

set_option autoImplicit false

namespace StepScript

open Text

/-! ## What a canonical line leaves open -/

/-- A list that is not closed counts its braces. -/
theorem Nesting.after_inList (depth : Nat) {s : List Char} (h : ']' ∉ s) :
    Nesting.after ⟨depth, true⟩ s = ⟨Parameter.braceDepth depth s, true⟩ := by
  induction s generalizing depth with
  | nil => rfl
  | cons c s ih =>
      have hc : c ≠ ']' := fun hc => h (hc ▸ List.mem_cons_self)
      rw [Nesting.after_cons, Nesting.next_inList depth hc, Parameter.braceDepth_cons]
      exact ih _ fun hmem => h (List.mem_cons_of_mem _ hmem)

/-- Parameters that leave no brace open leave none open when they are joined. -/
theorem Parameter.braceDepth_joinRaws {params : List Parameter}
    (h : ∀ p ∈ params, braceDepth 0 p.raw = 0) : braceDepth 0 (Command.joinRaws params) = 0 := by
  induction params with
  | nil => rfl
  | cons p params ih =>
      have hp := h p List.mem_cons_self
      cases params with
      | nil => exact hp
      | cons q params =>
          have hseparator : ∀ s, braceDepth 0 (',' :: ' ' :: s) = braceDepth 0 s := fun s => rfl
          rw [joinRaws_cons_cons, braceDepth_append, hp, hseparator]
          exact ih fun r hr => h r (List.mem_cons_of_mem _ hr)

namespace Command

variable {c : Command}

/-- The canonical line of well-formed parameters leaves nothing open. -/
theorem after_toLine (h : ∀ p ∈ c.params, p.WellFormed) :
    Nesting.outside.after c.toLine = .outside := by
  have hdepth := Parameter.braceDepth_joinRaws fun p hp => (h p hp).closed
  rw [toLine_eq, Nesting.after_append, Keyword.after_spelling]
  unfold listText
  split
  · rfl
  · -- the list is entered at its bracket, and left at the last one as no brace is open there
    have hopen : ∀ s, Nesting.outside.after (' ' :: '[' :: s) = Nesting.after ⟨0, true⟩ s :=
      fun s => rfl
    rw [List.cons_append, List.cons_append, hopen, Nesting.after_append,
      Nesting.after_inList 0 (closingBracket_not_mem_joinRaws h), hdepth]
    rfl

/-! ## Lines with comments -/

/-- The code of an indented canonical line is what stands in front of the comment. -/
theorem code_toLine_comment (h : ∀ p ∈ c.params, p.WellFormed) {indent gap : List Char}
    (comment : List Char) (hindent : allBlank indent = true) (hgap : allBlank gap = true) :
    Language.standard.code (indent ++ c.toLine ++ gap ++ '#' :: comment) =
      indent ++ c.toLine ++ gap := by
  have hcomment : Language.standard.code ('#' :: comment) = [] := rfl
  have happly := Language.commentApart_standard
  calc Language.standard.code (indent ++ c.toLine ++ gap ++ '#' :: comment)
      = Language.standard.code (indent ++ (c.toLine ++ (gap ++ '#' :: comment))) := by
        simp only [List.append_assoc]
    _ = indent ++ (c.toLine ++ (gap ++ Language.standard.code ('#' :: comment))) := by
        rw [happly.code_blank_append _ hindent,
          Language.code_append_of_skips _ (fun _ => skips_toLine h) (after_toLine h),
          happly.code_blank_append _ hgap]
    _ = indent ++ c.toLine ++ gap := by
        rw [hcomment, List.append_nil, List.append_assoc]

end Command

namespace Script

/-- A line whose code is a canonical line between blanks is read as the command. -/
theorem parseLine_of_code_eq {c : Command} (h : ∀ p ∈ c.params, p.WellFormed)
    {line indent gap : List Char} (hindent : allBlank indent = true) (hgap : allBlank gap = true)
    (hcode : Language.standard.code line = indent ++ c.toLine ++ gap) (number : Nat) :
    parseLine Language.standard line number = some ⟨number, c.keyword, c.params⟩ := by
  have hparams : paramsOf (trimStart c.listText) = c.params := by
    rw [Command.paramsOf_listText, Parameter.ofList_joinRaws (fun p hp => (h p hp).listed)
      (Command.rereadable_of_wellFormed h).closed]
  have hstart := Keyword.atStart?_spelling_append c.keyword (Command.endsBefore_listText c)
  rw [parseLine, hcode, trim_blank_append_blank _ hindent hgap, Command.trim_toLine,
    Command.toLine_eq, hstart]
  exact congrArg (fun params => some (Command.mk number c.keyword params)) hparams

/-- A command whose parameters are items of a list is **read back** from its canonical line, and
from that line with blanks in front of it and with blanks and a comment behind it. -/
theorem parseLine_toLine_comment {c : Command} (h : ∀ p ∈ c.params, p.IsItem)
    {indent gap : List Char} (comment : List Char) (hindent : allBlank indent = true)
    (hgap : allBlank gap = true) (number : Nat) :
    parseLine Language.standard c.toLine number = some ⟨number, c.keyword, c.params⟩ ∧
      parseLine Language.standard (indent ++ c.toLine ++ gap ++ '#' :: comment) number =
        some ⟨number, c.keyword, c.params⟩ := by
  have hwell : ∀ p ∈ c.params, p.WellFormed := fun p hp =>
    Parameter.wellFormed_iff_isItem.2 (h p hp)
  constructor
  · have hplain : Language.standard.code c.toLine = [] ++ c.toLine ++ [] := by
      rw [Language.code_of_cutComment_eq_none (Command.rereadable_of_wellFormed hwell).uncommented,
        List.nil_append, List.append_nil]
    exact parseLine_of_code_eq hwell rfl rfl hplain number
  · exact parseLine_of_code_eq hwell hindent hgap
      (Command.code_toLine_comment hwell comment hindent hgap) number

/-- Items that hold a comment token, an opening bracket, marks and nested braces with a comma. -/
theorem parseLine_toLine_comment_marks :
    let c := Command.ofTexts .swipe
      ["\x7b\x7ba, b\x7d #1\x7d".toList, "@\x7bx[0\x7d&&".toList, "C# [up".toList]
    let indent := "\t\u3000".toList
    let gap := " \u00a0".toList
    let comment := "] # \x7b,".toList
    (∀ p ∈ c.params, p.IsItem) ∧ allBlank indent = true ∧ allBlank gap = true ∧
      parseLine Language.standard c.toLine 7 = some ⟨7, c.keyword, c.params⟩ ∧
      parseLine Language.standard (indent ++ c.toLine ++ gap ++ '#' :: comment) 7 =
        some ⟨7, c.keyword, c.params⟩ := by
  intro c indent gap comment
  have hitems : ∀ p ∈ c.params, p.IsItem := by
    have hwell : ∀ p ∈ c.params, p.WellFormed := by decide
    exact fun p hp => Parameter.wellFormed_iff_isItem.1 (hwell p hp)
  exact ⟨hitems, by decide, by decide,
    parseLine_toLine_comment hitems comment (by decide) (by decide) 7⟩

end Script

end StepScript
