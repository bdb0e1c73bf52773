import Mathlib.Data.List.Forall2
import StepScript.Proofs.Views
import StepScript.Run.Engine

/-!
# What counts as a command

Many parts of the program address the commands of a script: it is parsed, its commands are counted,
the block view shows them, the text view marks their lines, and the engine sends their texts. Where
the comment token stands apart from the keywords, all of these mean the same commands in the same
order.

Main statement: `agreement_of_commentApart`.
-/

set_option autoImplicit false

namespace StepScript.Script

open Text

variable (lang : Language)

/-- Everything that counts the commands of a script means the same commands. -/
structure Agreement (script : List Char) : Prop where
  /-- There is one command for each command line, in order, with its number and its keyword. -/
  commands : (parse lang script).map (fun c => (c.line, c.keyword)) =
    (commandLines lang script).map fun l => (l.number, l.keyword)
  /-- A line that is classified as a command reads as a command with that keyword. -/
  lines : ∀ line k, (line, LineClass.command k) ∈ classify lang script → ∀ number,
    ∃ c, parseLine lang line number = some c ∧ c.line = number ∧ c.keyword = k
  /-- The count is the number of commands. -/
  count_eq : count lang script = (parse lang script).length
  /-- A block view that was just drawn shows these commands. -/
  blocks : ∀ v : BlockView, (v.render lang script).blocks.map Block.command = parse lang script
  /-- Each of its blocks stands at its rank. -/
  ranks : ∀ (v : BlockView) (i : Nat) (b : Block),
    (v.render lang script).blocks[i]? = some b → b.index = i
  /-- A text view that was just drawn takes marks on the lines of these commands only. -/
  marks : ∀ (v : TextView) (m : LineMark), ((v.render lang script).markLine m).2 = .applied ↔
    m.line ∈ (commandLines lang script).map CommandLine.number
  /-- What the engine sends reads like the block of the same rank. -/
  steps : ∀ (v : BlockView) (number : Nat), List.Forall₂
    (fun (step : Step) (b : Block) => step.line = b.command.line ∧
      ∃ c, parseLine lang step.text number = some c ∧ c.sameContent b.command = true)
    (Step.ofScript lang script) (v.render lang script).blocks

variable {lang}

theorem isCommandText_of_mem_classifyFrom {inSteps : Bool} {lines : List (List Char)}
    {line : List Char} {k : Keyword}
    (h : (line, LineClass.command k) ∈ classifyFrom lang inSteps lines) :
    IsCommandText lang line k := by
  induction lines generalizing inSteps with
  | nil => simp [classifyFrom] at h
  | cons first rest ih =>
      unfold classifyFrom at h
      split at h
      · exact ih (by simpa using h)
      · next hm =>
        split at h
        · rcases List.mem_cons.1 h with heq | h
          · obtain ⟨rfl, hk⟩ := Prod.mk.inj heq
            exact ⟨by simpa using hm, hk.symm⟩
          · exact ih h
        · exact ih (by simpa using h)

/-- Each step of a script reads like the block that is drawn from the same command line. -/
theorem forall₂_steps_blocksFrom (ha : lang.CommentApart) (index number : Nat)
    {lines : List CommandLine} (h : ∀ l ∈ lines, IsCommandText lang l.text l.keyword) :
    List.Forall₂
      (fun (step : Step) (b : Block) => step.line = b.command.line ∧
        ∃ c, parseLine lang step.text number = some c ∧ c.sameContent b.command = true)
      (lines.map fun l => ⟨l.number, trim l.text⟩)
      (BlockView.blocksFrom index (lines.map (readLine lang))) := by
  induction lines generalizing index with
  | nil => exact List.Forall₂.nil
  | cons l lines ih =>
      refine List.Forall₂.cons ⟨rfl, ?_⟩ (ih _ fun l' hl' => h l' (List.mem_cons_of_mem _ hl'))
      -- the step holds the trimmed line, the block was read from the whole line
      have hread : parseLine lang (trim l.text) number =
          some ⟨number, l.keyword, lineParams lang l.text⟩ := by
        rw [parseLine_trim ha]
        exact (h l List.mem_cons_self).parseLine_eq ha number
      exact ⟨_, hread, Command.sameContent_iff.2 ⟨rfl, rfl⟩⟩

/-- **All consumers agree** on the commands of a script, in every language whose comment token
stands apart from the keywords. -/
theorem agreement_of_commentApart (ha : lang.CommentApart) (script : List Char) :
    Agreement lang script where
  commands := by
    rw [parse_eq_map ha, List.map_map]
    rfl
  lines := fun line k h number =>
    ⟨_, (isCommandText_of_mem_classifyFrom h).parseLine_eq ha number, rfl, rfl⟩
  count_eq := (length_parse ha script).symm
  blocks := BlockView.map_command_blocks_render lang script
  ranks := fun _ _ _ h => BlockView.index_eq_of_getElem?_blocks_render lang h
  marks := fun v m => by
    rw [TextView.markLine_render]
    split <;> simp_all
  steps := fun v number => by
    rw [Step.ofScript, BlockView.render, parse_eq_map ha]
    exact forall₂_steps_blocksFrom ha 0 number fun l hl => isCommandText_of_mem hl

/-- The agreement in a language with a comment token of two characters, on a script that has an
indented command with a comment, a stray line and a second marker. -/
theorem agreement_slashes :
    ({ Language.standard with comment := "//".toList } : Language).CommentApart ∧
      Agreement { Language.standard with comment := "//".toList }
        "步骤:\n  点击 [a/b] // c\n点击按钮\n步骤 :\n返回".toList :=
  have h : ({ Language.standard with comment := "//".toList } : Language).CommentApart :=
    Language.commentApart_of_head rfl (by decide) fun k => by cases k <;> decide
  ⟨h, agreement_of_commentApart h _⟩

end StepScript.Script
