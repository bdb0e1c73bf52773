import StepScript.Proofs.RunInvariant

/-!
# Runs freeze the editor

From the moment when its observer is told that a script started until it is told that the script
finished, a run keeps the editor locked, so that no edit gets through, the script stays as it is, and
every line that is sent is the line that was announced. A run that is over has unlocked the editor,
and a run that is rejected has not touched it.

Main statements:

* `Stage.runInvariant_frozen` — a frozen editor is an invariant of runs;
* `Stage.turnedAway_runScript`, `Stage.turnedAway_runLine` — what a rejected run leaves as it was;
* `Stage.frozen_run` — what is promised of every run of a script, and of every rejected run.
-/

set_option autoImplicit false

namespace StepScript

open Text

/-! ## What the observer was told -/

namespace Observation

/-- Whether a script is under way after an observation. -/
def track (underWay : Bool) : Observation → Bool
  | .scriptStarted _ => true
  | .scriptFinished _ => false
  | _ => underWay

def step? : Observation → Option Step
  | .stepStarted _ _ line text => some ⟨line, text⟩
  | _ => none

end Observation

/-- Whether the observer was told that a script started, and not yet that it finished. -/
def scriptUnderWay (observed : List Observation) : Bool :=
  observed.foldl Observation.track false

/-- The step that the observer was last told of. -/
def announcedStep? (observed : List Observation) : Option Step :=
  (observed.filterMap Observation.step?).getLast?

@[simp] theorem scriptUnderWay_append_singleton (observed : List Observation) (o : Observation) :
    scriptUnderWay (observed ++ [o]) = o.track (scriptUnderWay observed) := by
  rw [scriptUnderWay, List.foldl_append]
  rfl

@[simp] theorem announcedStep?_append_singleton (observed : List Observation) (o : Observation) :
    announcedStep? (observed ++ [o]) = o.step?.or (announcedStep? observed) := by
  rw [announcedStep?, List.filterMap_append]
  cases ho : o.step? with
  | none => simp [ho, announcedStep?]
  | some step => simp [ho]

/-! ## Steps on their lines -/

/-- A step that is a line of a script, without the blanks around it. -/
structure Step.OnLine (script : List Char) (step : Step) : Prop where
  pos : 1 ≤ step.line
  line_eq : ∃ line, (splitLines script)[step.line - 1]? = some line ∧ step.text = trim line

/-- The steps of a script are lines of it. -/
theorem Step.onLine_of_mem_ofScript {lang : Language} {script : List Char} {step : Step}
    (h : step ∈ Step.ofScript lang script) : step.OnLine script := by
  obtain ⟨l, hl, rfl⟩ := List.mem_map.1 h
  obtain ⟨i, hi⟩ := List.getElem?_of_mem hl
  obtain ⟨front, back, hp⟩ := Script.exists_placed lang hi
  refine ⟨Nat.succ_pos _, l.text, ?_, rfl⟩
  show (splitLines script)[l.index + 1 - 1]? = some l.text
  rw [Nat.add_sub_cancel, hp.lines_eq, hp.index_eq, List.getElem?_append_right (Nat.le_refl _),
    Nat.sub_self, List.getElem?_cons_zero]

namespace Suspension

/-- The steps that are not over. -/
def steps : Suspension → List Step
  | .beforeStep _ _ _ step rest | .atStep _ _ step rest => step :: rest
  | .afterStep _ _ _ rest => rest
  | _ => []

/-- The step of a script that was sent, while the run waits for the verdict. -/
def sent? : Suspension → Option Step
  | .atStep _ _ step _ => some step
  | _ => none

end Suspension

/-! ## Frozen editors -/

/-- An action that does not unlock the editor. -/
def EditorAction.KeepsLock (a : EditorAction) : Prop :=
  a ≠ .setLocked false

/-- A stage while a run of the given script is going on: the editor is locked. -/
structure Frozen (script : List Char) (s : Stage) : Prop where
  running : s.engine.running = true
  under_way : scriptUnderWay s.observed = true
  locked : s.editor.locked = true
  content_eq : s.editor.content = script

/-- A stage after a run of the given script: the engine is idle, and the editor is not locked. -/
structure Released (script : List Char) (s : Stage) : Prop where
  idle : s.engine.running = false
  finished : scriptUnderWay s.observed = false
  unlocked : s.editor.locked = false
  content_eq : s.editor.content = script

/-- What holds of a stage at a suspension of a run of the given script. -/
structure FrozenAt (script : List Char) (point : Suspension) (s : Stage) : Prop where
  frozen : Frozen script s
  locks : point.locks = true
  on_line : ∀ step ∈ point.steps, step.OnLine script
  announced : ∀ step ∈ point.sent?, announcedStep? s.observed = some step

namespace Stage

variable {script : List Char} {s : Stage}

/-- No move thaws a stage, unless it unlocks the editor. -/
theorem frozen_move {m : Move} (hm : m.Within EditorAction.KeepsLock) (h : Frozen script s) :
    Frozen script (s.move m).1 := by
  have hkept : (s.move m).1.editor.locked = true ∧ (s.move m).1.editor.content = script := by
    rcases editor_move h.running hm with he | ⟨a, ha, he⟩
    · rw [he]
      exact ⟨h.locked, h.content_eq⟩
    · obtain ⟨hlocked, hcontent⟩ := Editor.content_act_of_locked h.locked ha
      rw [he]
      exact ⟨hlocked, hcontent.trans h.content_eq⟩
  refine ⟨running_move h.running m, ?_, hkept.1, hkept.2⟩
  -- of all that the observer can be told in a move, nothing starts or ends a script
  rcases observed_move h.running m with ho | ho
  · rw [ho]
    exact h.under_way
  · rw [ho, scriptUnderWay_append_singleton]
    exact h.under_way

/-- A move announces no step. -/
theorem announcedStep?_move (h : s.engine.running = true) (m : Move) :
    announcedStep? (s.move m).1.observed = announcedStep? s.observed := by
  rcases observed_move h m with ho | ho
  · rw [ho]
  · rw [ho, announcedStep?_append_singleton]
    rfl

/-- The end of a run releases a stage, whatever was marked before. -/
theorem released_finish (hcontent : s.editor.content = script) (n : Notice) (outcome : Outcome) :
    Released script (s.finish n outcome).1 := by
  refine ⟨rfl, ?_, rfl, hcontent⟩
  show scriptUnderWay (s.observed ++ [.notice n] ++ [.scriptFinished outcome]) = false
  rw [scriptUnderWay_append_singleton]
  rfl

theorem content_mapEditor_highlight (s : Stage) (m : LineMark) :
    (s.mapEditor fun e => (e.highlight m).1).editor.content = s.editor.content :=
  (Editor.redrawn_highlight s.editor m).content_eq

/-- Sending a step announces it, and keeps a stage frozen. -/
theorem holds_send (h : Frozen script s) (run : ScriptRun) (number : Nat) {step : Step}
    {rest : List Step} (hsteps : ∀ x ∈ step :: rest, x.OnLine script) :
    HoldsAfter (FrozenAt script) (fun _ => Released script) (s.send run number step rest) := by
  have hredrawn := Editor.redrawn_highlight s.editor ⟨step.line, .executing⟩
  refine ⟨⟨h.running, ?_, hredrawn.locked_eq.trans h.locked,
    hredrawn.content_eq.trans h.content_eq⟩, rfl, hsteps, ?_⟩
  · show scriptUnderWay (s.observed ++ [.stepStarted number run.total step.line step.text]) = true
    rw [scriptUnderWay_append_singleton]
    exact h.under_way
  · intro x hx
    obtain rfl : step = x := Option.some.inj hx
    show announcedStep? (s.observed ++ [.stepStarted number run.total step.line step.text]) = _
    rw [announcedStep?_append_singleton]
    rfl

/-- The turn to the next step keeps a stage frozen, or releases it. -/
theorem holds_proceed (h : Frozen script s) (run : ScriptRun) (number : Nat) (last : Option Nat)
    {steps : List Step} (hsteps : ∀ x ∈ steps, x.OnLine script) :
    HoldsAfter (FrozenAt script) (fun _ => Released script) (s.proceed run number last steps) := by
  cases steps with
  | nil =>
      simp only [proceed]
      split
      · exact released_finish h.content_eq .aborted (.cancelled last)
      · split
        · exact ⟨h, rfl, by simp [Suspension.steps], by simp [Suspension.sent?]⟩
        · exact released_finish (s := s.mapEditor .clearHighlight) h.content_eq .completed
            (.completed run.total)
  | cons step rest =>
      simp only [proceed]
      split
      · exact released_finish h.content_eq .aborted (.cancelled last)
      · split
        · exact ⟨h, rfl, hsteps, by simp [Suspension.sent?]⟩
        · exact holds_send h run number hsteps

/-- A **frozen** editor is an invariant of runs, at the end of which it is released. -/
theorem runInvariant_frozen (script : List Char) :
    RunInvariant (fun m => m.Within EditorAction.KeepsLock) (FrozenAt script)
      (fun _ => Released script) where
  move := by
    intro point s m hm h
    refine ⟨frozen_move hm h.frozen, h.locks, h.on_line, fun step hstep => ?_⟩
    rw [announcedStep?_move h.frozen.running]
    exact h.announced step hstep
  resume := by
    intro point s reply h
    have hfrozen := h.frozen
    -- a turn does nothing to the editor but draw and mark it, until it ends the run
    cases point with
    | beforeStep run number last step rest =>
        simp only [resume]
        split
        · exact released_finish hfrozen.content_eq .aborted (.cancelled last)
        · exact holds_send hfrozen run number h.on_line
    | atStep run number step rest =>
        simp only [resume]
        split
        · refine ⟨⟨hfrozen.running, ?_, hfrozen.locked, hfrozen.content_eq⟩, rfl, ?_, ?_⟩
          · show scriptUnderWay (s.observed ++ [.stepSucceeded number]) = true
            rw [scriptUnderWay_append_singleton]
            exact hfrozen.under_way
          · exact fun x hx => h.on_line x (List.mem_cons_of_mem _ hx)
          · simp [Suspension.sent?]
        · next message _ =>
          refine released_finish ?_ (.failed message) (.failed step.line message)
          exact (content_mapEditor_highlight s ⟨step.line, .error⟩).trans hfrozen.content_eq
    | afterStep run number step rest =>
        exact holds_proceed hfrozen run (number + 1) (some step.line) h.on_line
    | afterScript run =>
        exact released_finish (s := s.mapEditor .clearHighlight) hfrozen.content_eq .completed
          (.completed run.total)
    -- the run of a single line does not lock the editor, so it is none of these runs
    | atLine target step => exact absurd h.locks Bool.false_ne_true
    | afterLine outcome => exact absurd h.locks Bool.false_ne_true

/-! ## Runs of a script -/

/-- The stage with which a run starts: the editor is without a mark, and locked. -/
theorem stage_opening {ctx : RunContext} {o : Opening} (h : s.opening ctx = .ok o) :
    o.stage.editor = s.editor.clearHighlight.lock ∧
      o.stage.observed = s.observed ++ [.scriptStarted o.run.total] := by
  unfold opening begin at h
  split at h
  · simp at h
  · next taken hb =>
    split at h
    · simp at h
    · split at h
      · simp at h
      · obtain rfl := Except.ok.inj h
        split at hb
        · simp at hb
        · obtain rfl := Except.ok.inj hb
          exact ⟨rfl, rfl⟩

theorem frozen_opening {ctx : RunContext} {o : Opening} (h : s.opening ctx = .ok o) :
    Frozen s.editor.content o.stage := by
  obtain ⟨hengine, -, -, -⟩ := of_opening h
  obtain ⟨heditor, hobserved⟩ := stage_opening h
  refine ⟨by rw [hengine], ?_, by rw [heditor]; rfl, ?_⟩
  · rw [hobserved, scriptUnderWay_append_singleton]
    rfl
  · rw [heditor]
    exact (Editor.redrawn_clearHighlight s.editor).content_eq

/-- A stage after a call that was rejected: nothing was done to the editor, and the engine runs what
it ran before. -/
structure Untouched (s next : Stage) : Prop where
  editor_eq : next.editor = s.editor
  running_eq : next.engine.running = s.engine.running

/-- A stage after a call that was rejected for the given cause: the observer was told so, and nothing
else happened. -/
structure TurnedAway (s next : Stage) (cause : Rejection) : Prop where
  untouched : Untouched s next
  observed_eq : next.observed = s.observed ++ [.notice (.rejected cause)]

theorem turnedAway_reject {freed next : Stage} {cause cause' : Rejection}
    (h : freed.reject cause' = (next, .error cause)) (hfreed : Untouched s freed)
    (hobserved : freed.observed = s.observed) : TurnedAway s next cause := by
  obtain ⟨rfl, herror⟩ := Prod.ext_iff.1 h
  obtain rfl := Except.error.inj herror
  exact ⟨⟨hfreed.editor_eq, hfreed.running_eq⟩, congrArg (· ++ _) hobserved⟩

/-- A call for which the engine was taken lets it go. -/
theorem turnedAway_reject_release {taken next : Stage} {cause cause' : Rejection}
    (hb : s.begin = .ok taken) (h : (taken.release false).reject cause' = (next, .error cause)) :
    TurnedAway s next cause := by
  unfold begin at hb
  split at hb
  · simp at hb
  · next hidle =>
    obtain rfl := Except.ok.inj hb
    exact turnedAway_reject h ⟨rfl, (Bool.eq_false_iff.2 hidle).symm⟩ rfl

theorem turnedAway_runScript {ctx : RunContext} {next : Stage} {cause : Rejection}
    (h : s.runScript ctx = (next, .error cause)) : TurnedAway s next cause := by
  unfold runScript at h
  split at h
  · exact turnedAway_reject h ⟨rfl, rfl⟩ rfl
  · next taken hb =>
    split at h
    · exact turnedAway_reject_release hb h
    · split at h
      · exact turnedAway_reject_release hb h
      · simp at h

theorem turnedAway_runLine {ctx : RunContext} {line : Nat} {text : List Char} {next : Stage}
    {cause : Rejection} (h : s.runLine ctx line text = (next, .error cause)) :
    TurnedAway s next cause := by
  unfold runLine at h
  split at h
  · exact turnedAway_reject h ⟨rfl, rfl⟩ rfl
  · next taken hb =>
    split at h
    · exact turnedAway_reject_release hb h
    · dsimp only at h
      split at h
      · exact turnedAway_reject_release hb h
      · simp at h

/-- What is promised of a run of a script, on a schedule and after some moves in front of its first
look at a request to stop. -/
structure FrozenRun (script : List Char) (o : Opening) (early : List Move) (schedule : Schedule) :
    Prop where
  /-- The editor is frozen from the start. -/
  opened : ∀ before after, early = before ++ after →
    Frozen script (o.stage.play before).1 ∧ (o.stage.play before).1.editor.RefusesEdits
  /-- The editor is frozen whenever the run waits. -/
  waits : ∀ point s, Host.Passes schedule ⟨(o.launch early).1, []⟩ (o.launch early).2 point s →
    Frozen script s ∧ s.editor.RefusesEdits
  /-- A line is sent as it was announced, and is the line of the script that has its number. -/
  sent : ∀ point s target text,
    Host.Passes schedule ⟨(o.launch early).1, []⟩ (o.launch early).2 point s →
    point.request s.engine.options = .dispatch target text →
    ∃ step, announcedStep? s.observed = some step ∧ step.text = text ∧
      step.OnLine s.editor.content
  /-- The run ends, and leaves the editor unlocked and the engine idle. -/
  returns : ∃ outcome, (o.drive early schedule).2 = some outcome ∧
    Released script (o.drive early schedule).1.stage
  /-- So does a run that is given up while it waits. -/
  abandoned : ∀ point s, Host.Passes schedule ⟨(o.launch early).1, []⟩ (o.launch early).2 point s →
    (s.abandon point).engine.running = false ∧ (s.abandon point).editor = s.editor.unlock

/-- A suspension of a script's run that asks for a line to be sent is at the step of that line. -/
theorem sent?_of_request {point : Suspension} {options : EngineOptions} {target : Target}
    {text : List Char} (hlocks : point.locks = true)
    (h : point.request options = .dispatch target text) :
    ∃ step, point.sent? = some step ∧ step ∈ point.steps ∧ step.text = text := by
  cases point with
  | atStep run number step rest =>
      obtain ⟨-, htext⟩ := Request.dispatch.inj h
      exact ⟨step, rfl, List.mem_cons_self, htext⟩
  | atLine target step => exact absurd hlocks Bool.false_ne_true
  | beforeStep run number last step rest => exact Request.noConfusion h
  | afterStep run number step rest => exact Request.noConfusion h
  | afterScript run => exact Request.noConfusion h
  | afterLine outcome => exact Request.noConfusion h

theorem frozen_play {ctx : RunContext} {o : Opening} (h : s.opening ctx = .ok o)
    (moves : List Move) (hmoves : ∀ m ∈ moves, m.Within EditorAction.KeepsLock) :
    Frozen s.editor.content (o.stage.play moves).1 :=
  play_of_move (fun _ _ => frozen_move) hmoves (frozen_opening h)

theorem holds_launch {ctx : RunContext} {o : Opening} (h : s.opening ctx = .ok o)
    {early : List Move} (hearly : ∀ m ∈ early, m.Within EditorAction.KeepsLock) :
    HoldsAfter (FrozenAt s.editor.content) (fun _ => Released s.editor.content)
      (o.launch early) := by
  obtain ⟨-, -, -, hsteps⟩ := of_opening h
  refine holds_proceed (frozen_play h early hearly) o.run 1 none fun step hstep => ?_
  rw [hsteps] at hstep
  exact Step.onLine_of_mem_ofScript hstep

theorem frozenRun_of_opening {ctx : RunContext} {o : Opening} (h : s.opening ctx = .ok o)
    {early : List Move} {schedule : Schedule}
    (hearly : ∀ m ∈ early, m.Within EditorAction.KeepsLock)
    (hschedule : schedule.Within EditorAction.KeepsLock) :
    FrozenRun s.editor.content o early schedule := by
  have hstart := holds_launch h hearly
  have hinvariant := runInvariant_frozen s.editor.content
  refine ⟨?_, ?_, ?_, hinvariant.drive hschedule _ hstart, ?_⟩
  · intro before after hbefore
    have hfrozen := frozen_play h before fun m hm => hearly m (by simp [hbefore, hm])
    exact ⟨hfrozen, Editor.refusesEdits_of_locked hfrozen.locked⟩
  · intro point s hpasses
    have hfrozen := (hinvariant.passes hschedule hpasses hstart).frozen
    exact ⟨hfrozen, Editor.refusesEdits_of_locked hfrozen.locked⟩
  · intro point s target text hpasses hrequest
    have hfrozen := hinvariant.passes hschedule hpasses hstart
    obtain ⟨step, hsent, hmem, htext⟩ := sent?_of_request hfrozen.locks hrequest
    refine ⟨step, hfrozen.announced step hsent, htext, ?_⟩
    rw [hfrozen.frozen.content_eq]
    exact hfrozen.on_line step hmem
  · intro point s hpasses
    have hlocks := (hinvariant.passes hschedule hpasses hstart).locks
    rw [abandon, hlocks]
    exact ⟨rfl, rfl⟩

/-- **Frozen while running.** Whatever happens to a stage but unlocking its editor: a run of a script
that is accepted keeps the editor frozen until it ends, and then unlocks it; a run that is rejected,
of a script or of a line, does nothing to the editor. -/
theorem frozen_run (s : Stage) (ctx : RunContext) :
    (∀ next progress, s.runScript ctx = (next, .ok progress) →
      ∃ o, s.opening ctx = .ok o ∧ o.launch [] = (next, progress) ∧
        ∀ (early : List Move) (schedule : Schedule),
          (∀ m ∈ early, m.Within EditorAction.KeepsLock) →
          schedule.Within EditorAction.KeepsLock →
          FrozenRun s.editor.content o early schedule) ∧
    (∀ next cause, s.runScript ctx = (next, .error cause) → Untouched s next) ∧
    ∀ line text next cause, s.runLine ctx line text = (next, .error cause) → Untouched s next := by
  refine ⟨fun next progress h => ?_, fun next cause h => (turnedAway_runScript h).untouched,
    fun line text next cause h => (turnedAway_runLine h).untouched⟩
  obtain ⟨o, hopening, hlaunch⟩ := runScript_eq_ok.1 h
  exact ⟨o, hopening, hlaunch, fun early schedule => frozenRun_of_opening hopening⟩

/-- A run of two steps, to which a mode switch and an edit happen at the first request, and a
blank line that is to be run. -/
theorem frozen_run_two_steps :
    let text := "步骤:\n点击 [\x7ba\x7d]\n  等待 [500]".toList
    let buffer := Buffer.create .standard "a.tks".toList text
    let s : Stage := ⟨.ofBuffer .standard buffer, .idle .standard, []⟩
    let ctx : RunContext := ⟨some "dev".toList, some "/p".toList⟩
    let edits : List EditorAction := [.toggleMode, .edit (.setText [])]
    let schedule : Schedule := fun _ => ⟨edits.map fun a => .touch fun e => e.act a, .success, .success⟩
    ∃ o, s.opening ctx = .ok o ∧ FrozenRun s.editor.content o [.cancel] schedule ∧
      Untouched s (s.runScript ⟨none, none⟩).1 ∧ Untouched s (s.runLine ctx 1 " ".toList).1 := by
  intro text buffer s ctx edits schedule
  have haccepted : s.runScript ctx = ((s.runScript ctx).1, .ok (.suspended
      (.beforeStep ⟨⟨"dev".toList, "/p".toList⟩, 2⟩ 1 none ⟨2, "点击 [\x7ba\x7d]".toList⟩
        [⟨3, "等待 [500]".toList⟩]))) := Prod.ext rfl rfl
  have hrejected : s.runScript ⟨none, none⟩ =
      ((s.runScript ⟨none, none⟩).1, .error .missingDevice) := Prod.ext rfl rfl
  have hblank : s.runLine ctx 1 " ".toList =
      ((s.runLine ctx 1 " ".toList).1, .error .emptyLine) := Prod.ext rfl rfl
  have hedits : ∀ a ∈ edits, a.KeepsLock := by simp [edits, EditorAction.KeepsLock]
  obtain ⟨o, hopening, -, hruns⟩ := (frozen_run s ctx).1 _ _ haccepted
  refine ⟨o, hopening, hruns _ _ ?_ ?_, (frozen_run s ⟨none, none⟩).2.1 _ _ hrejected,
    (frozen_run s ctx).2.2 _ _ _ _ hblank⟩
  · intro m hm
    rw [List.mem_singleton.1 hm]
    exact trivial
  · intro n m hm
    obtain ⟨a, ha, rfl⟩ := List.mem_map.1 hm
    exact ⟨a, hedits a ha, rfl⟩

end Stage

end StepScript
