import StepScript.Editor
import StepScript.Run.Reply
import StepScript.Run.Report

/-!
# The engine

The **engine** runs the command lines of an editor's script on a device, one after another. A run
goes on in turns: at a **suspension** it waits for the reply to a request, and `resume` takes it to
the next suspension or to its end. While a run is suspended other things may happen to the engine
and to the editor; this is what makes a run and the rest of the program independent.

A run is stopped by a flag. It is looked at in front of every step, again after the refresh in front
of a step, and once more after the last step; a line that was sent is never called back.
-/

set_option autoImplicit false

namespace StepScript

/-- The choices that an engine is made with. -/
structure EngineOptions where
  /-- The pause after each step that succeeds, in milliseconds. -/
  pause : Nat := 300
  /-- Whether the screen is refreshed in front of each step. -/
  refreshBefore : Bool := true
  /-- Whether the screen is refreshed after a completed run. -/
  refreshAfter : Bool := true
deriving DecidableEq

def EngineOptions.standard : EngineOptions := {}

structure Engine where
  options : EngineOptions
  /-- Whether a run is going on. -/
  running : Bool
  /-- Whether that run was asked to stop. -/
  stopping : Bool
deriving DecidableEq

def Engine.idle (options : EngineOptions) : Engine := ⟨options, false, false⟩

/-- An engine that was asked to stop, and whether there was anything to stop. -/
def Engine.cancel (e : Engine) : Engine × Bool :=
  if e.running then ({ e with stopping := true }, true) else (e, false)

/-- An editor, its engine, and what the observer was told. -/
structure Stage where
  editor : Editor
  engine : Engine
  observed : List Observation

/-! ## Suspensions -/

/-- One command line of a script that is run. -/
structure Step where
  /-- The number of the line. -/
  line : Nat
  /-- The line without the blanks around it. -/
  text : List Char
deriving DecidableEq

def Step.ofScript (lang : Language) (script : List Char) : List Step :=
  (Script.commandLines lang script).map fun l => ⟨l.number, Text.trim l.text⟩

/-- What a suspended run asks for. -/
inductive Request where
  | dispatch (target : Target) (text : List Char)
  | refresh
  /-- Nothing, for some milliseconds. -/
  | pause (ms : Nat)
deriving DecidableEq

/-- What does not change during the run of a script. -/
structure ScriptRun where
  target : Target
  /-- The number of steps. -/
  total : Nat
deriving DecidableEq

/-- A place at which a run waits. The steps are numbered from one. -/
inductive Suspension where
  /-- In front of a step, for a refresh. `last` is the line of the step before. -/
  | beforeStep (run : ScriptRun) (number : Nat) (last : Option Nat) (step : Step) (rest : List Step)
  /-- At a step that was sent, for the verdict. -/
  | atStep (run : ScriptRun) (number : Nat) (step : Step) (rest : List Step)
  /-- After a step that succeeded, for the pause. -/
  | afterStep (run : ScriptRun) (number : Nat) (step : Step) (rest : List Step)
  /-- After the last step, for a refresh. -/
  | afterScript (run : ScriptRun)
  /-- At a line that is run on its own and was sent, for the verdict. -/
  | atLine (target : Target) (step : Step)
  /-- After such a line, for a refresh. -/
  | afterLine (outcome : Outcome)
deriving DecidableEq

/-- What became of a run so far. -/
inductive Progress where
  | suspended (point : Suspension)
  | finished (outcome : Outcome)
deriving DecidableEq

namespace Suspension

def request (options : EngineOptions) : Suspension → Request
  | .beforeStep .. | .afterScript _ | .afterLine _ => .refresh
  | .atStep run _ step _ => .dispatch run.target step.text
  | .afterStep .. => .pause options.pause
  | .atLine target step => .dispatch target step.text

def locks : Suspension → Bool
  | .atLine .. | .afterLine _ => false
  | _ => true

/-- A bound on the number of replies that the run still takes. -/
def budget : Suspension → Nat
  | .beforeStep _ _ _ _ rest => 3 * rest.length + 4
  | .atStep _ _ _ rest => 3 * rest.length + 3
  | .afterStep _ _ _ rest => 3 * rest.length + 2
  | .afterScript _ => 1
  | .atLine .. => 2
  | .afterLine _ => 1

end Suspension

/-! ## Turns -/

namespace Stage

def observe (s : Stage) (o : Observation) : Stage :=
  { s with observed := s.observed ++ [o] }

/-- A stage whose engine was asked to stop, and whether there was anything to stop. -/
def cancel (s : Stage) : Stage × Bool :=
  let (engine, found) := s.engine.cancel
  ({ s with engine }, found)

def setRunning (s : Stage) (running : Bool) : Stage :=
  { s with engine := { s.engine with running } }

def mapEditor (s : Stage) (f : Editor → Editor) : Stage :=
  { s with editor := f s.editor }

/-- A stage whose engine is free for the next run. The editor is unlocked if the run had locked it.
-/
def release (s : Stage) (locked : Bool) : Stage :=
  (if locked then s.mapEditor .unlock else s).setRunning false

def finish (s : Stage) (n : Notice) (outcome : Outcome) : Stage × Progress :=
  (((s.observe (.notice n)).observe (.scriptFinished outcome)).release true, .finished outcome)

/-- The end of a script's run that was stopped. -/
def abort (s : Stage) (last : Option Nat) : Stage × Progress :=
  s.finish .aborted (.cancelled last)

def complete (s : Stage) (run : ScriptRun) : Stage × Progress :=
  (s.mapEditor .clearHighlight).finish .completed (.completed run.total)

/-- The turn up to the verdict on a step. -/
def send (s : Stage) (run : ScriptRun) (number : Nat) (step : Step) (rest : List Step) :
    Stage × Progress :=
  ((s.observe (.stepStarted number run.total step.line step.text)).mapEditor fun e =>
      (e.highlightExecuting step.line).1,
    .suspended (.atStep run number step rest))

/-- The turn from the end of one step to the next one, or to the end of the script. -/
def proceed (s : Stage) (run : ScriptRun) (number : Nat) (last : Option Nat) :
    List Step → Stage × Progress
  | [] =>
    if s.engine.stopping then s.abort last
    else if s.engine.options.refreshAfter then (s, .suspended (.afterScript run))
    else s.complete run
  | step :: rest =>
    if s.engine.stopping then s.abort last
    else if s.engine.options.refreshBefore then
      (s, .suspended (.beforeStep run number last step rest))
    else s.send run number step rest

def fail (s : Stage) (number : Nat) (step : Step) (message : List Char) : Stage × Progress :=
  ((s.mapEditor fun e => (e.highlightError step.line).1).observe
    (.stepFailed number message)).finish (.failed message) (.failed step.line message)

/-- A stage after the verdict on a line that is run on its own, and the outcome. -/
def judgeLine (s : Stage) (step : Step) : Option (List Char) → Stage × Outcome
  | none => ((s.observe (.stepSucceeded 1)).mapEditor .clearHighlight, .completed 1)
  | some message =>
    (((s.mapEditor fun e => (e.highlightError step.line).1).observe
      (.stepFailed 1 message)).observe (.notice (.failed message)), .failed step.line message)

/-- The turn that starts with the reply to the request of a suspended run. How a refresh or a pause
went makes no difference. -/
def resume (s : Stage) (reply : Reply) : Suspension → Stage × Progress
  | .beforeStep run number last step rest =>
    if s.engine.stopping then s.abort last else s.send run number step rest
  | .atStep run number step rest =>
    match Reply.failure? reply with
    | none => (s.observe (.stepSucceeded number), .suspended (.afterStep run number step rest))
    | some message => s.fail number step message
  | .afterStep run number step rest => s.proceed run (number + 1) (some step.line) rest
  | .afterScript run => s.complete run
  | .atLine _ step =>
    let (s, outcome) := s.judgeLine step (Reply.failure? reply)
    (s, .suspended (.afterLine outcome))
  | .afterLine outcome => (s.release false, .finished outcome)

/-- A stage whose suspended run is given up for good. -/
def abandon (s : Stage) (point : Suspension) : Stage :=
  s.release point.locks

/-! ## Starting -/

/-- A stage whose engine is taken by a run; a request to stop that was left over is forgotten. -/
def begin (s : Stage) : Except Rejection Stage :=
  if s.engine.running then .error .busy
  else .ok { s with engine := { s.engine with running := true, stopping := false } }

/-- A stage after a call that was rejected. If the engine was taken for the call it is free again.
-/
def reject (s : Stage) (cause : Rejection) : Stage × Except Rejection Progress :=
  (s.observe (.notice (.rejected cause)), .error cause)

/-- The first turn of a script's run. -/
def runScript (s : Stage) (ctx : RunContext) : Stage × Except Rejection Progress :=
  match s.begin with
  | .error cause => s.reject cause
  | .ok taken =>
    match ctx.target with
    | .error cause => (taken.release false).reject cause
    | .ok target =>
      match Step.ofScript s.editor.language s.editor.content with
      | [] => (taken.release false).reject .noCommands
      | step :: rest =>
        let run : ScriptRun := ⟨target, rest.length + 1⟩
        let started :=
          (taken.mapEditor fun e => e.clearHighlight.lock).observe (.scriptStarted run.total)
        let (next, progress) := started.proceed run 1 none (step :: rest)
        (next, .ok progress)

/-- The first turn of a line that is run on its own. The editor is not locked. -/
def runLine (s : Stage) (ctx : RunContext) (line : Nat) (text : List Char) :
    Stage × Except Rejection Progress :=
  match s.begin with
  | .error cause => s.reject cause
  | .ok taken =>
    match ctx.target with
    | .error cause => (taken.release false).reject cause
    | .ok target =>
      let step : Step := ⟨line, Text.trim text⟩
      if step.text.isEmpty then (taken.release false).reject .emptyLine
      else
        ((taken.observe (.notice (.lineStarted line step.text))).mapEditor fun e =>
            (e.highlightExecuting line).1,
          .ok (.suspended (.atLine target step)))

/-! ## Laws -/

theorem budget_send {s next : Stage} {run : ScriptRun} {number : Nat} {step : Step}
    {rest : List Step} {later : Suspension}
    (h : s.send run number step rest = (next, .suspended later)) :
    later.budget = 3 * rest.length + 3 := by
  obtain ⟨_, rfl⟩ := by simpa [send] using h
  rfl

theorem budget_proceed {s next : Stage} {run : ScriptRun} {number : Nat} {last : Option Nat}
    {steps : List Step} {later : Suspension}
    (h : s.proceed run number last steps = (next, .suspended later)) :
    later.budget ≤ 3 * steps.length + 1 := by
  cases steps with
  | nil =>
    simp only [proceed] at h
    split at h
    · simp [abort, finish] at h
    · split at h
      · obtain ⟨_, rfl⟩ := by simpa using h
        simp [Suspension.budget]
      · simp [complete, finish] at h
  | cons step rest =>
    simp only [proceed] at h
    split at h
    · simp [abort, finish] at h
    · split at h
      · obtain ⟨_, rfl⟩ := by simpa using h
        simp [Suspension.budget]
        omega
      · have := budget_send h
        simp
        omega

/-- Every reply brings a run nearer to its end. -/
theorem budget_resume {s next : Stage} {reply : Reply} {point later : Suspension}
    (h : s.resume reply point = (next, .suspended later)) : later.budget < point.budget := by
  cases point with
  | beforeStep run number last step rest =>
    simp only [resume] at h
    split at h
    · simp [abort, finish] at h
    · rw [budget_send h]
      simp [Suspension.budget]
  | atStep run number step rest =>
    simp only [resume] at h
    split at h
    · obtain ⟨_, rfl⟩ := by simpa using h
      simp [Suspension.budget]
    · simp [fail, finish] at h
  | afterStep run number step rest =>
    refine Nat.lt_of_le_of_lt (budget_proceed h) ?_
    simp [Suspension.budget]
  | afterScript run => simp [resume, complete, finish] at h
  | atLine target step =>
    obtain ⟨_, rfl⟩ := by simpa [resume] using h
    simp [Suspension.budget]
  | afterLine outcome => simp [resume] at h

end Stage

end StepScript
