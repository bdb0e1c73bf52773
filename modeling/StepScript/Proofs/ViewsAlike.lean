import StepScript.Proofs.Marks

/-!
# Views that answer alike

Whoever asks a view for marks sees what it answers, the mark that it shows, and how often it was
drawn. In all this a view that shows a script goes like a machine that knows nothing but the lines on
which marks go; so both views of one script answer alike, whatever they are asked for one after the
other.

Main statements:

* `follows_of_step` — a view that goes like the machine in every request does so in every sequence of
  them;
* `TextView.Shows.follows`, `BlockView.Shows.follows` — both views do;
* `Script.alike_render` — two views that were drawn from one script answer alike, and by which rule.
-/

set_option autoImplicit false

namespace StepScript

/-! ## Requests -/

/-- One thing that is asked of a view. -/
inductive MarkRequest where
  | mark (m : LineMark)
  | clear
deriving DecidableEq

/-- What a view offers to whoever asks it for marks. -/
class ScriptView (V : Type) where
  /-- The mark that is shown. -/
  mark? : V → Option LineMark
  /-- How often the view was drawn. -/
  redraws : V → Nat
  markLine : V → LineMark → V × MarkOutcome
  clearMark : V → V

instance : ScriptView TextView :=
  ⟨TextView.mark?, TextView.redraws, TextView.markLine, TextView.clearMark⟩

instance : ScriptView BlockView :=
  ⟨BlockView.mark?, BlockView.redraws, BlockView.markLine, BlockView.clearMark⟩

namespace ScriptView

variable {V : Type} [ScriptView V]

def answer (v : V) : MarkRequest → V × Option MarkOutcome
  | .mark m => ((markLine v m).1, some (markLine v m).2)
  | .clear => (clearMark v, none)

def after (v : V) (requests : List MarkRequest) : V :=
  requests.foldl (fun v r => (answer v r).1) v

def answers (v : V) : List MarkRequest → List (Option MarkOutcome)
  | [] => []
  | r :: requests => (answer v r).2 :: answers (answer v r).1 requests

end ScriptView

open ScriptView

/-! ## The machine -/

/-- What can be seen of the marks of a view. -/
structure Marking where
  /-- The mark that is shown. -/
  mark? : Option LineMark
  /-- How often the view was drawn. -/
  redraws : Nat
deriving DecidableEq

namespace Marking

variable {lines : List Nat} {s : Marking}

/-- What a request for a mark comes to, where marks go on the given lines. -/
def markLine (lines : List Nat) (s : Marking) (m : LineMark) : Marking × MarkOutcome :=
  let outcome := m.outcome lines s.mark?
  (if outcome = .applied then ⟨some m, s.redraws + 1⟩ else s, outcome)

def clearMark (s : Marking) : Marking :=
  if s.mark?.isSome then ⟨none, s.redraws + 1⟩ else s

def answer (lines : List Nat) (s : Marking) : MarkRequest → Marking × Option MarkOutcome
  | .mark m => ((s.markLine lines m).1, some (s.markLine lines m).2)
  | .clear => (s.clearMark, none)

def after (lines : List Nat) (s : Marking) (requests : List MarkRequest) : Marking :=
  requests.foldl (fun s r => (s.answer lines r).1) s

def answers (lines : List Nat) (s : Marking) : List MarkRequest → List (Option MarkOutcome)
  | [] => []
  | r :: requests => (s.answer lines r).2 :: ((s.answer lines r).1).answers lines requests

/-! ### The rule -/

/-- The mark that is shown, if any, is on one of the given lines. -/
def OnLines (lines : List Nat) (s : Marking) : Prop :=
  ∀ m ∈ s.mark?, m.line ∈ lines

theorem OnLines.answer (h : s.OnLines lines) (r : MarkRequest) :
    (s.answer lines r).1.OnLines lines := by
  cases r with
  | mark m =>
      show (if m.outcome lines s.mark? = .applied then _ else s : Marking).OnLines lines
      split
      · next happlied =>
        -- a mark is applied only on one of the lines
        intro m' hm'
        obtain rfl : m = m' := Option.some.inj hm'
        by_contra hline
        rw [LineMark.outcome_of_not_mem hline] at happlied
        exact absurd happlied (by decide)
      · exact h
  | clear =>
      show (if s.mark?.isSome then _ else s : Marking).OnLines lines
      split
      · exact fun m hm => absurd hm (by simp)
      · exact h

theorem OnLines.after (h : s.OnLines lines) (requests : List MarkRequest) :
    (s.after lines requests).OnLines lines := by
  induction requests generalizing s with
  | nil => exact h
  | cons r requests ih => exact ih (h.answer r)

/-- A request is ignored if no mark goes on the line, or if it would hide an error. -/
theorem outcome_markLine_eq_ignored (s : Marking) (m : LineMark) :
    (s.markLine lines m).2 = .ignored ↔
      m.line ∉ lines ∨ m.kind = .executing ∧ s.mark? = some ⟨m.line, .error⟩ := by
  show m.outcome lines s.mark? = .ignored ↔ _
  by_cases hline : m.line ∈ lines
  · unfold LineMark.outcome LineMark.refusal?
    rw [if_pos hline]
    cases s.mark? with
    | none => simp [hline]
    | some old =>
        obtain ⟨oldLine, oldKind⟩ := old
        obtain ⟨line, kind⟩ := m
        cases oldKind <;> cases kind <;> by_cases hsame : oldLine = line <;> simp [hsame, hline]
  · simp [LineMark.outcome_of_not_mem hline, hline]

/-- A request changes nothing if the mark is there already. -/
theorem OnLines.outcome_markLine_eq_unchanged (h : s.OnLines lines) (m : LineMark) :
    (s.markLine lines m).2 = .unchanged ↔ s.mark? = some m := by
  show m.outcome lines s.mark? = .unchanged ↔ _
  by_cases hline : m.line ∈ lines
  · unfold LineMark.outcome LineMark.refusal?
    rw [if_pos hline]
    cases s.mark? with
    | none => simp
    | some old =>
        by_cases hsame : old = m
        · simp [hsame]
        · simp only [hsame, if_false, Option.some.injEq]
          split <;> simp
  · rw [LineMark.outcome_of_not_mem hline]
    refine ⟨fun h => by simp at h, fun hmark => absurd (h m hmark) hline⟩

end Marking

/-! ## Views that go like the machine -/

section Follows

variable {V : Type} [ScriptView V] {lines : List Nat} {v : V}

/-- What can be seen of the marks of a view. -/
def ScriptView.marking (v : V) : Marking :=
  ⟨mark? v, redraws v⟩

/-- A view goes like the machine in one request. -/
def Matches (lines : List Nat) (v : V) (r : MarkRequest) : Prop :=
  (marking (answer v r).1, (answer v r).2) = (marking v).answer lines r

/-- A view goes like the machine in all requests, one after the other. -/
structure Follows (lines : List Nat) (v : V) : Prop where
  marking_after : ∀ requests, marking (after v requests) = (marking v).after lines requests
  answers_eq : ∀ requests, answers v requests = (marking v).answers lines requests
  step : ∀ requests r, Matches lines (after v requests) r

/-- A view that goes like the machine in every request, and goes on to do so, goes like it in all
requests. -/
theorem follows_of_step (shows : V → Prop) (hmatches : ∀ v, shows v → ∀ r, Matches lines v r)
    (hkeeps : ∀ v, shows v → ∀ r, shows (answer v r).1) (h : shows v) : Follows lines v := by
  have hmarking : ∀ v, shows v → ∀ r,
      marking (answer v r).1 = ((marking v).answer lines r).1 := fun v hv r =>
    congrArg Prod.fst (hmatches v hv r)
  refine ⟨fun requests => ?_, fun requests => ?_, fun requests r => ?_⟩
  · induction requests generalizing v with
    | nil => rfl
    | cons r requests ih =>
        show marking (after (answer v r).1 requests) = _
        rw [ih (hkeeps v h r), hmarking v h r]
        rfl
  · induction requests generalizing v with
    | nil => rfl
    | cons r requests ih =>
        have hanswer : (answer v r).2 = ((marking v).answer lines r).2 :=
          congrArg Prod.snd (hmatches v h r)
        rw [answers, Marking.answers, ih (hkeeps v h r), hmarking v h r, hanswer]
  · induction requests generalizing v with
    | nil => exact hmatches v h r
    | cons r' requests ih => exact ih (hkeeps v h r')

/-- A view goes like the machine in a request for a mark, if the request comes to what the machine
says, and is drawn again only for a mark that is applied. -/
theorem matches_mark {m : LineMark} (houtcome : (markLine v m).2 = m.outcome lines (mark? v))
    (hcases : (markLine v m).2 ≠ .applied ∧ marking (markLine v m).1 = marking v ∨
      (markLine v m).2 = .applied ∧ marking (markLine v m).1 = ⟨some m, redraws v + 1⟩) :
    Matches lines v (.mark m) := by
  show (marking (markLine v m).1, some (markLine v m).2) = _
  rw [houtcome] at hcases ⊢
  rcases hcases with ⟨hne, hview⟩ | ⟨happlied, hview⟩
  · rw [hview]
    exact Prod.ext (if_neg hne).symm rfl
  · rw [hview]
    exact Prod.ext (if_pos happlied).symm rfl

end Follows

theorem TextView.Shows.follows {lang : Language} {script : List Char} {v : TextView}
    (h : v.Shows lang script) : Follows (Script.commandNumbers lang script) v := by
  refine follows_of_step (fun v : TextView => v.Shows lang script) ?_ ?_ h
  · intro v hv r
    cases r with
    | mark m =>
        refine matches_mark (hv.outcome_markLine m) ?_
        rcases v.markLine_cases m with ⟨hne, heq⟩ | ⟨happlied, range, heq⟩
        · exact Or.inl ⟨hne, congrArg marking heq⟩
        · exact Or.inr ⟨happlied, congrArg marking heq⟩
    | clear =>
        obtain ⟨text, commandLines, layers, marked, locked, redraws⟩ := v
        cases marked <;> rfl
  · intro v hv r
    cases r with
    | mark m => exact hv.markLine m
    | clear => exact hv.clearMark

theorem BlockView.Shows.follows {lang : Language} (ha : lang.CommentApart) {script : List Char}
    {v : BlockView} (h : v.Shows lang script) :
    Follows (Script.commandNumbers lang script) v := by
  refine follows_of_step (fun v : BlockView => v.Shows lang script) ?_ ?_ h
  · intro v hv r
    cases r with
    | mark m =>
        refine matches_mark (hv.outcome_markLine ha m) ?_
        rcases v.markLine_cases m with ⟨hne, heq⟩ | ⟨happlied, index, heq⟩
        · exact Or.inl ⟨hne, congrArg marking heq⟩
        · exact Or.inr ⟨happlied, congrArg marking heq⟩
    | clear =>
        obtain ⟨blocks, marked, locked, redraws⟩ := v
        cases marked <;> rfl
  · intro v hv r
    cases r with
    | mark m => exact hv.markLine m
    | clear => exact hv.clearMark

/-! ## Two views of one script -/

/-- By which rule a view answers to whoever asks it for a mark now. -/
structure AnswersByRule {V : Type} [ScriptView V] (lines : List Nat) (v : V) : Prop where
  ignored_iff : ∀ m, (markLine v m).2 = .ignored ↔
    m.line ∉ lines ∨ m.kind = .executing ∧ mark? v = some ⟨m.line, .error⟩
  unchanged_iff : ∀ m, (markLine v m).2 = .unchanged ↔ mark? v = some m
  /-- The view is drawn again for a mark that is applied, and shows it. -/
  marking_markLine : ∀ m, marking (markLine v m).1 =
    if (markLine v m).2 = .applied then ⟨some m, redraws v + 1⟩ else marking v
  /-- The view is drawn again for a mark that is taken away. -/
  marking_clearMark : marking (clearMark v) =
    if (mark? v).isSome then ⟨none, redraws v + 1⟩ else marking v

/-- Two views that are asked for the same marks: they answer the same, show the same mark, are drawn
equally often, and go on by the same rule. -/
structure AnswerAlike {V W : Type} [ScriptView V] [ScriptView W] (lines : List Nat) (v : V) (w : W)
    (requests : List MarkRequest) : Prop where
  answers_eq : answers v requests = answers w requests
  mark_eq : mark? (after v requests) = mark? (after w requests)
  redraws_eq : ∃ n, redraws (after v requests) = redraws v + n ∧
    redraws (after w requests) = redraws w + n
  left : AnswersByRule lines (after v requests)
  right : AnswersByRule lines (after w requests)

section Alike

variable {V W : Type} [ScriptView V] [ScriptView W] {lines : List Nat} {v : V} {w : W}

theorem Follows.answersByRule (h : Follows lines v) (hon : (marking v).OnLines lines)
    (requests : List MarkRequest) : AnswersByRule lines (after v requests) := by
  have hmarked : ∀ m, (marking (markLine (after v requests) m).1,
      some (markLine (after v requests) m).2) =
      (marking (after v requests)).answer lines (.mark m) := fun m => h.step requests (.mark m)
  have houtcome : ∀ m, (markLine (after v requests) m).2 =
      ((marking (after v requests)).markLine lines m).2 := fun m =>
    Option.some.inj (congrArg Prod.snd (hmarked m))
  have hon' : (marking (after v requests)).OnLines lines := by
    rw [h.marking_after]
    exact hon.after requests
  refine ⟨fun m => ?_, fun m => ?_, fun m => ?_, congrArg Prod.fst (h.step requests .clear)⟩
  · rw [houtcome]
    exact Marking.outcome_markLine_eq_ignored _ m
  · rw [houtcome]
    exact hon'.outcome_markLine_eq_unchanged m
  · rw [houtcome]
    exact congrArg Prod.fst (hmarked m)

/-- How often a view was drawn before makes no difference to what becomes of a request. -/
theorem Marking.exists_answer (lines : List Nat) (mark : Option LineMark) (r : MarkRequest) :
    ∃ mark' n outcome, ∀ k, Marking.answer lines ⟨mark, k⟩ r = (⟨mark', k + n⟩, outcome) := by
  cases r with
  | mark m =>
      by_cases happlied : m.outcome lines mark = .applied
      · exact ⟨some m, 1, some (m.outcome lines mark), fun k => Prod.ext (if_pos happlied) rfl⟩
      · exact ⟨mark, 0, some (m.outcome lines mark), fun k => Prod.ext (if_neg happlied) rfl⟩
  | clear =>
      cases mark with
      | none => exact ⟨none, 0, none, fun k => rfl⟩
      | some m => exact ⟨none, 1, none, fun k => rfl⟩

theorem Marking.exists_after (lines : List Nat) (mark : Option LineMark)
    (requests : List MarkRequest) : ∃ mark' n outcomes, ∀ k,
      Marking.after lines ⟨mark, k⟩ requests = ⟨mark', k + n⟩ ∧
        Marking.answers lines ⟨mark, k⟩ requests = outcomes := by
  induction requests generalizing mark with
  | nil => exact ⟨mark, 0, [], fun k => ⟨rfl, rfl⟩⟩
  | cons r requests ih =>
      obtain ⟨next, more, outcome, hstep⟩ := Marking.exists_answer lines mark r
      obtain ⟨mark', n, outcomes, hrest⟩ := ih next
      refine ⟨mark', more + n, outcome :: outcomes, fun k => ?_⟩
      obtain ⟨hafter, hanswers⟩ := hrest (k + more)
      refine ⟨?_, ?_⟩
      · show Marking.after lines (Marking.answer lines ⟨mark, k⟩ r).1 requests = _
        rw [hstep, hafter, Nat.add_assoc]
      · rw [Marking.answers, hstep, hanswers]

/-- Two views that go like the machine, from the same mark on, answer alike. -/
theorem Follows.answerAlike (hv : Follows lines v) (hw : Follows lines w)
    (hmark : mark? v = mark? w) (hon : (marking v).OnLines lines) (requests : List MarkRequest) :
    AnswerAlike lines v w requests := by
  obtain ⟨mark', n, outcomes, hmachine⟩ := Marking.exists_after lines (mark? v) requests
  obtain ⟨hafter, hanswers⟩ := hmachine (redraws v)
  obtain ⟨hafter', hanswers'⟩ := hmachine (redraws w)
  have hv' : marking (after v requests) = ⟨mark', redraws v + n⟩ :=
    (hv.marking_after requests).trans hafter
  have hw' : marking (after w requests) = ⟨mark', redraws w + n⟩ := by
    rw [hw.marking_after, ← hafter', hmark]
    rfl
  refine ⟨?_, ?_, ⟨n, congrArg Marking.redraws hv', congrArg Marking.redraws hw'⟩,
    hv.answersByRule hon requests, hw.answersByRule ?_ requests⟩
  · rw [hv.answers_eq, hw.answers_eq, marking, marking, hanswers, ← hmark, hanswers']
  · exact (congrArg Marking.mark? hv').trans (congrArg Marking.mark? hw').symm
  · unfold Marking.OnLines marking at hon ⊢
    rw [← hmark]
    exact hon

end Alike

/-- **Views of one script answer alike.** Whatever a text view and a block view that were drawn from
one script are asked for, one request after the other: they give the same answers, show the same mark
and are drawn equally often, and a request is ignored exactly if its line is no command line or
carries an error that the mark would hide. -/
theorem Script.alike_render {lang : Language} (ha : lang.CommentApart) (script : List Char)
    (v : TextView) (w : BlockView) (requests : List MarkRequest) :
    AnswerAlike (Script.commandNumbers lang script) (v.render lang script) (w.render lang script)
      requests :=
  (TextView.shows_render lang script v).follows.answerAlike
    ((BlockView.shows_render lang script w).follows ha) rfl (fun _ hm => nomatch hm) requests

/-- A script of two commands, in which the first one is marked as failed, then as executing, and then
the second one. -/
theorem Script.alike_render_two_commands :
    let script := "步骤:\n点击 [\x7ba\x7d]\n返回 # 回到首页".toList
    let v := TextView.empty.render .standard script
    let w := BlockView.empty.render .standard script
    let requests : List MarkRequest :=
      [.mark ⟨2, .error⟩, .mark ⟨2, .executing⟩, .mark ⟨1, .error⟩, .mark ⟨3, .executing⟩]
    AnswerAlike (commandNumbers .standard script) v w requests ∧
      answers w requests = [some .applied, some .ignored, some .ignored, some .applied] ∧
      mark? (after w requests) = some ⟨3, .executing⟩ := by
  intro script v w requests
  have halike := alike_render Language.commentApart_standard script .empty .empty requests
  refine ⟨halike, ?_, ?_⟩
  · rw [← halike.answers_eq]
    rfl
  · rw [← halike.mark_eq]
    rfl

end StepScript
