import StepScript.Proofs.FrozenRun

/-!
# The marks of a run

A run of a script takes away the mark that was there, and from then on the mark follows the run: it
is on the line that was sent last. The reason is that the editor is locked, so that nothing but the
run asks for a mark, and that a line can refuse to be marked as executing only if it is marked as
failed, which ends a run. Views that are drawn anew put the mark back, since its line is a command
line of a script that stays as it is.

A line that is run on its own may carry any mark before; a failure overrides it, and a success takes
it away.

Main statements:

* `Stage.runInvariant_marked` — the mark that is expected at a suspension is an invariant of runs;
* `Stage.marked_run` — the marks in a run of a script, and after it, and after a line that is run on
  its own.
-/

set_option autoImplicit false

namespace StepScript

/-! ## The mark that is expected -/

/-- The mark of a run on the line that it sent last. -/
def executingMark (last : Option Nat) : Option LineMark :=
  last.map fun line => ⟨line, .executing⟩

/-- The mark that the run of a script leaves behind. -/
def Outcome.mark : Outcome → Option LineMark
  | .completed _ => none
  | .failed line _ => some ⟨line, .error⟩
  | .cancelled last => executingMark last

/-- Whether a mark is the one that is expected at a suspension of a script's run. -/
def Suspension.Expects (mark : Option LineMark) : Suspension → Prop
  | .beforeStep _ _ last _ _ => mark = executingMark last
  | .atStep _ _ step _ | .afterStep _ _ step _ => mark = executingMark (some step.line)
  | _ => True

/-- An action that neither unlocks the editor nor asks for a mark. -/
def EditorAction.KeepsMark (a : EditorAction) : Prop :=
  a.KeepsLock ∧ a.asksForMark = false

/-- The steps of a script are command lines of it. -/
theorem Step.line_mem_commandNumbers {lang : Language} {script : List Char} {step : Step}
    (h : step ∈ Step.ofScript lang script) : step.line ∈ Script.commandNumbers lang script := by
  obtain ⟨l, hl, rfl⟩ := List.mem_map.1 h
  exact List.mem_map_of_mem hl

/-! ## Editors whose marks are followed -/

namespace Editor

variable {e : Editor} {lines : List Nat}

/-- An editor that remembers a mark and shows it. -/
structure Carries (e : Editor) (mark : Option LineMark) : Prop where
  mark_eq : e.mark = mark
  shownMark_eq : e.shownMark? = mark

theorem Coherent.carries (h : e.Coherent) {mark : Option LineMark} (hmark : e.mark = mark) :
    e.Carries mark :=
  ⟨hmark, h.shownMark_eq.trans hmark⟩

theorem Carries.setLocked {mark : Option LineMark} (h : e.Carries mark) (locked : Bool) :
    (e.setLocked locked).Carries mark := by
  obtain ⟨hmark, hshown⟩ := h
  obtain ⟨language, buffer, mode, textView, blockView, locked', mark', slotTaken⟩ := e
  cases mode <;> exact ⟨hmark, hshown⟩

/-- A coherent editor of which the command lines are known. -/
structure Tracks (lines : List Nat) (e : Editor) : Prop where
  comment_apart : e.language.CommentApart
  coherent : e.Coherent
  commandNumbers_eq : e.commandNumbers = lines

theorem Tracks.highlight (h : e.Tracks lines) (m : LineMark) : (e.highlight m).1.Tracks lines := by
  have hredrawn := redrawn_highlight e m
  refine ⟨?_, h.coherent.highlight h.comment_apart m,
    hredrawn.commandNumbers_eq.trans h.commandNumbers_eq⟩
  rw [hredrawn.language_eq]
  exact h.comment_apart

theorem Tracks.clearHighlight (h : e.Tracks lines) : e.clearHighlight.Tracks lines :=
  ⟨h.comment_apart, h.coherent.clearHighlight,
    (redrawn_clearHighlight e).commandNumbers_eq.trans h.commandNumbers_eq⟩

theorem Tracks.lock (h : e.Tracks lines) : e.lock.Tracks lines :=
  ⟨h.comment_apart, h.coherent.setLocked true, h.commandNumbers_eq⟩

theorem Tracks.act_of_locked (h : e.Tracks lines) (hlocked : e.locked = true) {a : EditorAction}
    (ha : a.KeepsLock) : (e.act a).Tracks lines := by
  refine ⟨?_, h.coherent.act h.comment_apart a, ?_⟩
  · rw [language_act]
    exact h.comment_apart
  · rw [commandNumbers, language_act, (content_act_of_locked hlocked ha).2]
    exact h.commandNumbers_eq

/-- A command line can be marked as executing after any other line was. -/
theorem Tracks.mark_highlight_executing (h : e.Tracks lines) {line : Nat} {last : Option Nat}
    (hline : line ∈ lines) (hmark : e.mark = executingMark last) :
    (e.highlight ⟨line, .executing⟩).1.mark = executingMark (some line) := by
  rw [h.coherent.mark_highlight h.comment_apart, h.commandNumbers_eq, hmark]
  -- the request could be ignored only on account of an error on the same line
  refine LineMark.shownAfter_executing hline ?_
  cases last <;> simp [executingMark]

/-- A command line can always be marked as failed. -/
theorem Tracks.mark_highlight_error (h : e.Tracks lines) {line : Nat} (hline : line ∈ lines) :
    (e.highlight ⟨line, .error⟩).1.mark = some ⟨line, .error⟩ := by
  rw [h.coherent.mark_highlight h.comment_apart, h.commandNumbers_eq]
  exact LineMark.shownAfter_error hline

end Editor

/-! ## Marks in a run of a script -/

/-- What holds of a stage at a suspension of a script's run: the editor carries the mark that is
expected there. -/
structure MarkedAt (lines : List Nat) (point : Suspension) (s : Stage) : Prop where
  tracks : s.editor.Tracks lines
  on_command : ∀ step ∈ point.steps, step.line ∈ lines
  expected : point.Expects s.editor.mark

/-- What holds of a stage after a script's run. -/
def MarkedEnd (outcome : Outcome) (s : Stage) : Prop :=
  s.editor.Carries outcome.mark

namespace Stage

variable {s : Stage} {lines : List Nat}

/-- The end of a run leaves the mark as it is. -/
theorem markedEnd_finish (hcoherent : s.editor.Coherent) (n : Notice) {outcome : Outcome}
    (hmark : s.editor.mark = outcome.mark) : MarkedEnd outcome (s.finish n outcome).1 :=
  (hcoherent.carries hmark).setLocked false

theorem markedEnd_complete (h : s.editor.Tracks lines) (run : ScriptRun) :
    HoldsAfter (MarkedAt lines) MarkedEnd (s.complete run) :=
  markedEnd_finish (s := s.mapEditor .clearHighlight) h.clearHighlight.coherent .completed rfl

/-- The step that is sent is marked as executing. -/
theorem holds_send_marked (h : s.editor.Tracks lines) (run : ScriptRun) (number : Nat)
    {last : Option Nat} (hmark : s.editor.mark = executingMark last) {step : Step}
    {rest : List Step} (hsteps : ∀ x ∈ step :: rest, x.line ∈ lines) :
    HoldsAfter (MarkedAt lines) MarkedEnd (s.send run number step rest) :=
  ⟨h.highlight _, hsteps, h.mark_highlight_executing (hsteps step List.mem_cons_self) hmark⟩

/-- The turn to the next step starts with the mark on the step before, and ends with the mark that
is expected. -/
theorem holds_proceed_marked (h : s.editor.Tracks lines) (run : ScriptRun) (number : Nat)
    (last : Option Nat) (hmark : s.editor.mark = executingMark last) {steps : List Step}
    (hsteps : ∀ x ∈ steps, x.line ∈ lines) :
    HoldsAfter (MarkedAt lines) MarkedEnd (s.proceed run number last steps) := by
  cases steps with
  | nil =>
      simp only [proceed]
      split
      · exact markedEnd_finish h.coherent .aborted hmark
      · split
        · exact ⟨h, hsteps, trivial⟩
        · exact markedEnd_complete h run
  | cons step rest =>
      simp only [proceed]
      split
      · exact markedEnd_finish h.coherent .aborted hmark
      · split
        · exact ⟨h, hsteps, hmark⟩
        · exact holds_send_marked h run number hmark hsteps

/-- A step that failed is marked so. -/
theorem holds_fail_marked (h : s.editor.Tracks lines) (number : Nat) {step : Step}
    (hstep : step.line ∈ lines) (message : List Char) :
    HoldsAfter (MarkedAt lines) MarkedEnd (s.fail number step message) :=
  markedEnd_finish (s := (s.mapEditor fun e => (e.highlightError step.line).1).observe
      (.stepFailed number message))
    (h.highlight _).coherent (.failed message) (h.mark_highlight_error hstep)

/-- A move that neither unlocks the editor nor asks for a mark leaves the mark of a locked editor as
it is. -/
theorem marked_move {m : Move} (hm : m.Within EditorAction.KeepsMark)
    (hrunning : s.engine.running = true) (hlocked : s.editor.locked = true)
    (h : s.editor.Tracks lines) :
    (s.move m).1.editor.Tracks lines ∧ (s.move m).1.editor.mark = s.editor.mark := by
  rcases editor_move hrunning hm with he | ⟨a, ⟨hlock, hasks⟩, he⟩
  · rw [he]
    exact ⟨h, rfl⟩
  · rw [he]
    exact ⟨h.act_of_locked hlocked hlock,
      Editor.mark_act_of_locked h.coherent h.comment_apart hlocked hlock hasks⟩

/-- The mark that is **expected** is an invariant of runs, together with the frozen editor on which
it rests. -/
theorem runInvariant_marked (script : List Char) (lines : List Nat) :
    RunInvariant (fun m => m.Within EditorAction.KeepsMark)
      (fun point s => FrozenAt script point s ∧ MarkedAt lines point s)
      (fun outcome s => Released script s ∧ MarkedEnd outcome s) := by
  refine (runInvariant_frozen script).relative (fun m hm => hm.mono fun a ha => ha.1) ?_ ?_
  · intro point s m hm hfrozen hmarked
    obtain ⟨htracks, hmark⟩ :=
      marked_move hm hfrozen.frozen.running hfrozen.frozen.locked hmarked.tracks
    refine ⟨htracks, hmarked.on_command, ?_⟩
    rw [hmark]
    exact hmarked.expected
  · intro point s reply hfrozen ⟨htracks, hcommand, hexpected⟩
    -- behind a step that succeeded, the mark on it is the mark on the step before the next one
    cases point with
    | beforeStep run number last step rest =>
        simp only [resume]
        split
        · exact markedEnd_finish htracks.coherent .aborted hexpected
        · exact holds_send_marked htracks run number hexpected hcommand
    | atStep run number step rest =>
        simp only [resume]
        split
        · exact ⟨htracks, fun x hx => hcommand x (List.mem_cons_of_mem _ hx), hexpected⟩
        · exact holds_fail_marked htracks number (hcommand step List.mem_cons_self) _
    | afterStep run number step rest =>
        exact holds_proceed_marked htracks run (number + 1) _ hexpected hcommand
    | afterScript run => exact markedEnd_complete htracks run
    | atLine target step => exact absurd hfrozen.locks Bool.false_ne_true
    | afterLine outcome => exact absurd hfrozen.locks Bool.false_ne_true

/-! ## Marks after a line that is run on its own -/

/-- What is promised of the mark after a line was run on its own. -/
def LineMarked (line : Nat) (lines : List Nat) (outcome : Outcome) (s : Stage) : Prop :=
  outcome = .completed 1 ∧ s.editor.Carries none ∨
    ∃ message, outcome = .failed line message ∧
      (line ∈ lines → s.editor.Carries (some ⟨line, .error⟩))

/-- What holds of a stage at a suspension of the run of a single line. -/
def LineMarkedAt (line : Nat) (lines : List Nat) (point : Suspension) (s : Stage) : Prop :=
  s.engine.running = true ∧
    match point with
    | .atLine _ step => step.line = line ∧ s.editor.Tracks lines
    | .afterLine outcome => LineMarked line lines outcome s
    | _ => False

theorem lineMarked_congr {line : Nat} {outcome : Outcome} {s' : Stage}
    (he : s'.editor = s.editor) (h : LineMarked line lines outcome s) :
    LineMarked line lines outcome s' := by
  unfold LineMarked at h ⊢
  rw [he]
  exact h

/-- The verdict on a line that is run on its own decides on its mark. -/
theorem lineMarked_judgeLine (h : s.editor.Tracks lines) (step : Step)
    (failure : Option (List Char)) :
    LineMarked step.line lines (s.judgeLine step failure).2 (s.judgeLine step failure).1 := by
  cases failure with
  | none => exact Or.inl ⟨rfl, h.clearHighlight.coherent.carries rfl⟩
  | some message =>
      refine Or.inr ⟨message, rfl, fun hline => ?_⟩
      exact (h.highlight _).coherent.carries (h.mark_highlight_error hline)

/-- The mark of a line that is run on its own is an invariant, if the editor is not touched. -/
theorem runInvariant_lineMarked (line : Nat) (lines : List Nat) :
    RunInvariant (fun m => m.Within fun _ => False) (LineMarkedAt line lines)
      (LineMarked line lines) where
  move := by
    intro point s m hm ⟨hrunning, hpoint⟩
    obtain he : (s.move m).1.editor = s.editor := by
      rcases editor_move hrunning hm with he | ⟨a, ha, -⟩
      · exact he
      · exact ha.elim
    -- what is said of a suspension is said of the editor, which stays as it is
    refine ⟨running_move hrunning m, ?_⟩
    cases point with
    | atLine target step =>
        refine ⟨hpoint.1, ?_⟩
        rw [he]
        exact hpoint.2
    | afterLine outcome => exact lineMarked_congr he hpoint
    | beforeStep run number last step rest => exact hpoint
    | atStep run number step rest => exact hpoint
    | afterStep run number step rest => exact hpoint
    | afterScript run => exact hpoint
  resume := by
    intro point s reply ⟨hrunning, hpoint⟩
    cases point with
    | atLine target step =>
        obtain ⟨rfl, htracks⟩ := hpoint
        refine ⟨?_, lineMarked_judgeLine htracks step _⟩
        cases Reply.failure? reply <;> exact hrunning
    | afterLine outcome => exact lineMarked_congr rfl hpoint
    | beforeStep run number last step rest => exact hpoint.elim
    | atStep run number step rest => exact hpoint.elim
    | afterStep run number step rest => exact hpoint.elim
    | afterScript run => exact hpoint.elim

/-- A line that is accepted waits for its verdict. -/
theorem lineMarkedAt_runLine (h : s.editor.Tracks lines) {ctx : RunContext} {line : Nat}
    {text : List Char} {next : Stage} {progress : Progress}
    (hrun : s.runLine ctx line text = (next, .ok progress)) :
    HoldsAfter (LineMarkedAt line lines) (LineMarked line lines) (next, progress) := by
  unfold runLine begin at hrun
  split at hrun
  · simp [reject] at hrun
  · next taken hb =>
    split at hrun
    · simp [reject] at hrun
    · dsimp only at hrun
      split at hrun
      · simp [reject] at hrun
      · split at hb
        · simp at hb
        · obtain rfl := Except.ok.inj hb
          obtain ⟨rfl, hprogress⟩ := Prod.mk.inj hrun
          obtain rfl := Except.ok.inj hprogress
          exact ⟨rfl, rfl, h.highlight _⟩

/-! ## The marks of a run -/

/-- What is promised of the marks in a run of a script, on a schedule and after some moves in front
of its first look at a request to stop. -/
structure MarkedRun (o : Opening) (early : List Move) (schedule : Schedule) : Prop where
  /-- While a line is sent, it is marked as executing under the number that was announced. -/
  sent : ∀ point s target text,
    Host.Passes schedule ⟨(o.launch early).1, []⟩ (o.launch early).2 point s →
    point.request s.engine.options = .dispatch target text →
    ∃ step, announcedStep? s.observed = some step ∧ step.text = text ∧
      s.editor.Carries (some ⟨step.line, .executing⟩)
  /-- The run ends, and its outcome says which mark is left. -/
  returns : ∃ outcome, (o.drive early schedule).2 = some outcome ∧
    (o.drive early schedule).1.stage.editor.Carries outcome.mark

/-- What is expected while a line is sent. -/
theorem expected_sent {point : Suspension} {mark : Option LineMark} {step : Step}
    (h : point.Expects mark) (hsent : point.sent? = some step) :
    mark = some ⟨step.line, .executing⟩ := by
  cases point with
  | atStep run number step' rest =>
      obtain rfl := Option.some.inj hsent
      exact h
  | _ => simp [Suspension.sent?] at hsent

/-- In front of the first step no mark is left of what was there before. -/
theorem marked_play {ctx : RunContext} {o : Opening} (h : s.opening ctx = .ok o)
    (hs : s.editor.Tracks lines) {moves : List Move}
    (hmoves : ∀ m ∈ moves, m.Within EditorAction.KeepsMark) :
    (o.stage.play moves).1.editor.Tracks lines ∧ (o.stage.play moves).1.editor.mark = none := by
  obtain ⟨heditor, -⟩ := stage_opening h
  have hstart : o.stage.editor.Tracks lines ∧ o.stage.editor.mark = none := by
    rw [heditor]
    exact ⟨hs.clearHighlight.lock, rfl⟩
  have hplayed := play_of_move (s := o.stage)
    (p := fun t => Frozen s.editor.content t ∧ t.editor.Tracks lines ∧ t.editor.mark = none)
    (fun t m hm ⟨hfrozen, htracks, hmark⟩ => by
      obtain ⟨htracks', hmark'⟩ := marked_move hm hfrozen.running hfrozen.locked htracks
      exact ⟨frozen_move (hm.mono fun a ha => ha.1) hfrozen, htracks', hmark'.trans hmark⟩)
    hmoves ⟨frozen_opening h, hstart⟩
  exact hplayed.2

theorem markedRun_of_opening {ctx : RunContext} {o : Opening} (h : s.opening ctx = .ok o)
    (hs : s.editor.Tracks s.editor.commandNumbers) {early : List Move} {schedule : Schedule}
    (hearly : ∀ m ∈ early, m.Within EditorAction.KeepsMark)
    (hschedule : schedule.Within EditorAction.KeepsMark) : MarkedRun o early schedule := by
  obtain ⟨-, -, -, hsteps⟩ := of_opening h
  obtain ⟨htracks, hmark⟩ := marked_play h hs hearly
  have hcommand : ∀ step ∈ o.steps, step.line ∈ s.editor.commandNumbers := by
    intro step hstep
    rw [hsteps] at hstep
    exact Step.line_mem_commandNumbers hstep
  have hstart := (holds_launch h fun m hm => (hearly m hm).mono fun a ha => ha.1).and
    (holds_proceed_marked htracks o.run 1 none hmark hcommand)
  have hinvariant := runInvariant_marked s.editor.content s.editor.commandNumbers
  refine ⟨?_, ?_⟩
  · intro point t target text hpasses hrequest
    obtain ⟨hfrozen, hmarked⟩ := hinvariant.passes hschedule hpasses hstart
    obtain ⟨step, hsent, -, htext⟩ := sent?_of_request hfrozen.locks hrequest
    exact ⟨step, hfrozen.announced step hsent, htext,
      hmarked.tracks.coherent.carries (expected_sent hmarked.expected hsent)⟩
  · obtain ⟨outcome, houtcome, -, hmarked⟩ :=
      hinvariant.drive hschedule ⟨(o.launch early).1, []⟩ hstart
    exact ⟨outcome, houtcome, hmarked⟩

/-- **Marks of runs.** Whatever is done to a reachable editor but unlocking it and asking for marks:
in a run of a script the line that is sent is marked as executing, and the outcome says which mark is
left. A line that is run on its own leaves no mark if it succeeds, and is marked as failed if it
fails and is a command line, whatever was marked before. -/
theorem marked_run {lang : Language} (ha : lang.CommentApart) {s : Stage}
    (hs : s.editor.Reachable lang) (ctx : RunContext) :
    (∀ next progress, s.runScript ctx = (next, .ok progress) →
      ∃ o, s.opening ctx = .ok o ∧ o.launch [] = (next, progress) ∧
        ∀ (early : List Move) (schedule : Schedule),
          (∀ m ∈ early, m.Within EditorAction.KeepsMark) →
          schedule.Within EditorAction.KeepsMark → MarkedRun o early schedule) ∧
    ∀ line text next progress, s.runLine ctx line text = (next, .ok progress) →
      ∀ schedule : Schedule, (schedule.Within fun _ => False) →
        ∃ outcome, (Host.drive schedule ⟨next, []⟩ progress).2 = some outcome ∧
          LineMarked line s.editor.commandNumbers outcome
            (Host.drive schedule ⟨next, []⟩ progress).1.stage := by
  have htracks : s.editor.Tracks s.editor.commandNumbers := by
    refine ⟨?_, hs.coherent ha, rfl⟩
    rw [hs.language_eq]
    exact ha
  refine ⟨fun next progress h => ?_, fun line text next progress h schedule hschedule => ?_⟩
  · obtain ⟨o, hopening, hlaunch⟩ := runScript_eq_ok.1 h
    exact ⟨o, hopening, hlaunch, fun early schedule => markedRun_of_opening hopening htracks⟩
  · exact (runInvariant_lineMarked line s.editor.commandNumbers).drive hschedule ⟨next, []⟩
      (lineMarkedAt_runLine htracks h)

/-- An editor on which a line is marked as failed, and a run of two steps in which its mode is
toggled at every request. -/
theorem marked_run_two_steps :
    let text := "步骤:\n点击 [\x7ba\x7d]\n  等待 [500]".toList
    let buffer := Buffer.create .standard "a.tks".toList text
    let editor := (Editor.ofBuffer .standard buffer).act (.highlight ⟨2, .error⟩)
    let s : Stage := ⟨editor, .idle .standard, []⟩
    let ctx : RunContext := ⟨some "dev".toList, some "/p".toList⟩
    let toggles : Schedule := fun _ => ⟨[.touch fun e => e.act .toggleMode], .success, .success⟩
    let quiet : Schedule := fun _ => ⟨[.cancel], .error (.io "gone".toList), .success⟩
    (∃ o, s.opening ctx = .ok o ∧ MarkedRun o [] toggles) ∧
      ∃ next progress outcome, s.runLine ctx 2 "点击 [\x7ba\x7d]".toList = (next, .ok progress) ∧
        (Host.drive quiet ⟨next, []⟩ progress).2 = some outcome ∧
        LineMarked 2 s.editor.commandNumbers outcome
          (Host.drive quiet ⟨next, []⟩ progress).1.stage := by
  intro text buffer editor s ctx toggles quiet
  have hreachable : editor.Reachable .standard := .act _ (.ofBuffer buffer)
  have hcontent : editor.content = text :=
    (Editor.redrawn_highlight _ _).content_eq.trans (Editor.redrawn_render _).content_eq
  have hsteps : Step.ofScript .standard text =
      [⟨2, "点击 [\x7ba\x7d]".toList⟩, ⟨3, "等待 [500]".toList⟩] := rfl
  obtain ⟨started, first, haccepted⟩ : ∃ started first, s.runScript ctx = (started, .ok first) := by
    have htarget : ctx.target = .ok ⟨"dev".toList, "/p".toList⟩ := rfl
    refine exists_runScript_eq_ok rfl htarget ?_
    show Step.ofScript editor.language editor.content ≠ []
    rw [hreachable.language_eq, hcontent, hsteps]
    simp
  obtain ⟨next, progress, hline⟩ : ∃ next progress,
      s.runLine ctx 2 "点击 [\x7ba\x7d]".toList = (next, .ok progress) := ⟨_, _, rfl⟩
  obtain ⟨hscript, hsingle⟩ := marked_run (s := s) Language.commentApart_standard hreachable ctx
  obtain ⟨o, hopening, -, hruns⟩ := hscript _ _ haccepted
  obtain ⟨outcome, houtcome, hmarked⟩ := hsingle _ _ _ _ hline quiet (by
    intro n m hm
    rw [List.mem_singleton.1 hm]
    exact trivial)
  refine ⟨⟨o, hopening, hruns [] toggles (by simp) fun n m hm => ?_⟩,
    next, progress, outcome, hline, houtcome, hmarked⟩
  rw [List.mem_singleton.1 hm]
  exact ⟨.toggleMode, ⟨by simp [EditorAction.KeepsLock], rfl⟩, rfl⟩

end Stage

end StepScript
