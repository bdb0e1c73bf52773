import Mathlib.Logic.Function.Basic
import StepScript.Proofs.RunInvariant

/-!
# Calls that share an engine

Many callers may have hold of one engine. Each of them may ask for a script or for a line to be run,
on an editor of its own or on one that others use too, and each of them may ask the engine to stop. A
call is not run in one go: it takes the engine, looks at what it was asked for, and from then on
waits for one reply after another; whatever the other callers do happens in between. A **workshop**
is an engine with its editors and with the calls that are not over.

The engine is taken by one call at a time, and is free again however that call ends. A request to
stop is a mark on the engine, which is wiped off when the next call takes the engine. So it stops the
run that it was made in, or no run at all.

Main statements:

* `Workshop.Sound.step` — every event keeps at most one call, for which the engine is taken;
* `Workshop.OnlyLines.heedless` — a request to stop that no call looks at makes no difference;
* `Workshop.exclusive_after` — what holds after any sequence of events;
* `Workshop.settled_call` — a call that nobody comes in between is the run of the script or the line.
-/

set_option autoImplicit false

namespace StepScript

/-! ## Calls -/

/-- What a caller asks for. -/
inductive CallTask where
  | script (ctx : RunContext)
  | line (ctx : RunContext) (number : Nat) (text : List Char)

/-- Where a call stands that has taken the engine. -/
inductive CallPoint where
  /-- The call is still to look at what it was asked for. -/
  | taken (task : CallTask)
  /-- The observer was told that a script starts, and the first turn is still to come. -/
  | opened (run : ScriptRun) (steps : List Step)
  /-- The call waits for a reply. -/
  | waiting (point : Suspension)

namespace CallPoint

def locks : CallPoint → Bool
  | .taken _ => false
  | .opened .. => true
  | .waiting point => point.locks

def isLine : CallPoint → Bool
  | .taken (.line ..) | .waiting (.atLine ..) | .waiting (.afterLine _) => true
  | _ => false

def request? (options : EngineOptions) : CallPoint → Option Request
  | .waiting point => some (point.request options)
  | _ => none

end CallPoint

/-- A call that is not over. -/
structure LiveCall where
  /-- The editor that the call works on. -/
  editor : Nat
  point : CallPoint

namespace Stage

/-- The run that a caller asks for, up to its first suspension. -/
def run (s : Stage) : CallTask → Stage × Except Rejection Progress
  | .script ctx => s.runScript ctx
  | .line ctx number text => s.runLine ctx number text

/-- A stage after a call that had taken the engine, and was rejected. -/
def refuse (taken : Stage) (cause : Rejection) : Stage × Except Rejection CallPoint :=
  (((taken.release false).reject cause).1, .error cause)

/-- A stage after a call that had taken the engine has looked at what it was asked for. -/
def check (taken : Stage) : CallTask → Stage × Except Rejection CallPoint
  | .script ctx =>
    match ctx.target with
    | .error cause => taken.refuse cause
    | .ok target =>
      match Step.ofScript taken.editor.language taken.editor.content with
      | [] => taken.refuse .noCommands
      | step :: rest =>
        ((taken.mapEditor fun e => e.clearHighlight.lock).observe
          (.scriptStarted (rest.length + 1)),
          .ok (.opened ⟨target, rest.length + 1⟩ (step :: rest)))
  | .line ctx number text =>
    match ctx.target with
    | .error cause => taken.refuse cause
    | .ok target =>
      let step : Step := ⟨number, Text.trim text⟩
      if step.text.isEmpty then taken.refuse .emptyLine
      else
        ((taken.observe (.notice (.lineStarted number step.text))).mapEditor fun e =>
            (e.highlightExecuting number).1,
          .ok (.waiting (.atLine target step)))

end Stage

/-! ## Workshops -/

/-- An engine that is shared, and all that it is shared for. -/
structure Workshop where
  engine : Engine
  editors : Nat → Editor
  observed : List Observation
  /-- The calls that have taken the engine and are not over. -/
  calls : List LiveCall

/-- One thing that happens in a workshop. The calls that are not over are numbered. -/
inductive CallEvent where
  | call (editor : Nat) (task : CallTask)
  /-- A call goes on that does not wait for a reply. -/
  | advance (index : Nat)
  | reply (index : Nat) (reply : Reply)
  /-- A call is given up for good, wherever it stands. -/
  | drop (index : Nat)
  | cancel
  /-- Anything is done to an editor. -/
  | touch (editor : Nat) (f : Editor → Editor)

/-- What is said in answer to an event. -/
inductive CallAnswer where
  /-- Nothing yet. -/
  | nothing
  | refused (cause : Rejection)
  | ended (outcome : Outcome)
  /-- Whether there was anything to stop. -/
  | cancelled (found : Bool)
deriving DecidableEq

namespace Workshop

def opened (options : EngineOptions) (editors : Nat → Editor) : Workshop :=
  ⟨.idle options, editors, [], []⟩

/-- What a call on an editor has before it. -/
def stage (k : Workshop) (editor : Nat) : Stage :=
  ⟨k.editors editor, k.engine, k.observed⟩

/-- A workshop after something was done by a call on an editor. -/
def setStage (k : Workshop) (editor : Nat) (s : Stage) : Workshop :=
  { k with
    engine := s.engine
    editors := Function.update k.editors editor s.editor
    observed := s.observed }

def afterTurn (k : Workshop) (index editor : Nat) : Stage × Progress → Workshop × CallAnswer
  | (s, .suspended point) =>
    ({ k.setStage editor s with calls := k.calls.set index ⟨editor, .waiting point⟩ }, .nothing)
  | (s, .finished outcome) =>
    ({ k.setStage editor s with calls := k.calls.eraseIdx index }, .ended outcome)

/-- A workshop after an event, and the answer. An event that cannot happen leaves all as it is. -/
def step (k : Workshop) : CallEvent → Workshop × CallAnswer
  | .call editor task =>
    match (k.stage editor).begin with
    | .error cause => (k.setStage editor ((k.stage editor).reject cause).1, .refused cause)
    | .ok taken =>
      ({ k.setStage editor taken with calls := k.calls ++ [⟨editor, .taken task⟩] }, .nothing)
  | .advance index =>
    match k.calls[index]? with
    | some ⟨editor, .taken task⟩ =>
      match (k.stage editor).check task with
      | (s, .error cause) =>
        ({ k.setStage editor s with calls := k.calls.eraseIdx index }, .refused cause)
      | (s, .ok point) =>
        ({ k.setStage editor s with calls := k.calls.set index ⟨editor, point⟩ }, .nothing)
    | some ⟨editor, .opened run steps⟩ =>
      k.afterTurn index editor ((k.stage editor).proceed run 1 none steps)
    | _ => (k, .nothing)
  | .reply index reply =>
    match k.calls[index]? with
    | some ⟨editor, .waiting point⟩ =>
      k.afterTurn index editor ((k.stage editor).resume reply point)
    | _ => (k, .nothing)
  | .drop index =>
    match k.calls[index]? with
    | some ⟨editor, point⟩ =>
      ({ k.setStage editor ((k.stage editor).release point.locks) with
        calls := k.calls.eraseIdx index }, .nothing)
    | none => (k, .nothing)
  | .cancel => ({ k with engine := k.engine.cancel.1 }, .cancelled k.engine.cancel.2)
  | .touch editor f =>
    ({ k with editors := Function.update k.editors editor (f (k.editors editor)) }, .nothing)

def after (k : Workshop) : List CallEvent → Workshop
  | [] => k
  | e :: es => (k.step e).1.after es

def answers (k : Workshop) : List CallEvent → List CallAnswer
  | [] => []
  | e :: es => (k.step e).2 :: (k.step e).1.answers es

/-- The lines that were sent and are not replied to. -/
def outstanding (k : Workshop) : List Request :=
  k.calls.filterMap fun c => (c.point.request? k.engine.options).filter Request.isDispatch

def withStopping (k : Workshop) (stopping : Bool) : Workshop :=
  { k with engine := { k.engine with stopping } }

end Workshop

/-! ## What a turn does to the engine -/

namespace Stage

/-- What a turn leaves of an engine: a run that waits keeps it, and a run that is over frees it. -/
abbrev EngineAfter (e : Engine) : Stage × Progress → Prop :=
  HoldsAfter (fun _ s => s.engine = e) (fun _ s => s.engine = { e with running := false })

theorem engineAfter_proceed (s : Stage) (run : ScriptRun) (number : Nat) (last : Option Nat)
    (steps : List Step) : EngineAfter s.engine (s.proceed run number last steps) := by
  cases steps <;> simp only [proceed] <;> repeat' split
  all_goals rfl

theorem engineAfter_resume (s : Stage) (reply : Reply) (point : Suspension) :
    EngineAfter s.engine (s.resume reply point) := by
  cases point with
  | beforeStep run number last step rest =>
      simp only [resume]
      split <;> rfl
  | atStep run number step rest =>
      simp only [resume]
      split <;> rfl
  | afterStep run number step rest => exact engineAfter_proceed s run _ _ rest
  | afterScript run => rfl
  | atLine target step =>
      simp only [resume]
      cases Reply.failure? reply <;> rfl
  | afterLine outcome => rfl

/-- **What a look at the task does.** The call is rejected and the engine is freed, or the call is let
in and keeps the engine; a call for a line goes on as one for a line. -/
theorem check_cases (s : Stage) (task : CallTask) :
    (∃ cause, s.check task = s.refuse cause) ∨
      ∃ next point, s.check task = (next, .ok point) ∧ next.engine = s.engine ∧
        point.isLine = (CallPoint.taken task).isLine := by
  cases task with
  | script ctx =>
      simp only [check]
      split
      · exact Or.inl ⟨_, rfl⟩
      · split
        · exact Or.inl ⟨_, rfl⟩
        · exact Or.inr ⟨_, _, rfl, rfl, rfl⟩
  | line ctx number text =>
      simp only [check]
      split
      · exact Or.inl ⟨_, rfl⟩
      · split
        · exact Or.inl ⟨_, rfl⟩
        · exact Or.inr ⟨_, _, rfl, rfl, rfl⟩

/-- A stage whose engine is taken, with no request to stop. -/
def take (s : Stage) : Stage :=
  { s with engine := { s.engine with running := true, stopping := false } }

theorem begin_of_idle {s : Stage} (h : s.engine.running = false) : s.begin = .ok s.take := by
  rw [begin, if_neg (by simp [h]), take]

/-- A run on a free engine, by what comes of the look at the task: it is rejected, or it has its
first turn, or it is one of a line and waits. -/
theorem run_cases {s : Stage} (h : s.engine.running = false) (task : CallTask) :
    (∃ next cause, s.take.check task = (next, .error cause) ∧ s.run task = (next, .error cause)) ∨
      (∃ next run steps, s.take.check task = (next, .ok (.opened run steps)) ∧
        s.run task = ((next.proceed run 1 none steps).1,
          .ok (next.proceed run 1 none steps).2)) ∨
      ∃ next point, s.take.check task = (next, .ok (.waiting point)) ∧
        s.run task = (next, .ok (.suspended point)) := by
  have hbegin := begin_of_idle h
  cases task with
  | script ctx =>
      have hsteps : Step.ofScript s.take.editor.language s.take.editor.content =
          Step.ofScript s.editor.language s.editor.content := rfl
      simp only [run, runScript, hbegin, check, hsteps]
      cases ctx.target with
      | error cause => exact Or.inl ⟨_, _, rfl, rfl⟩
      | ok target =>
          cases Step.ofScript s.editor.language s.editor.content with
          | nil => exact Or.inl ⟨_, _, rfl, rfl⟩
          | cons step rest => exact Or.inr (Or.inl ⟨_, _, _, rfl, rfl⟩)
  | line ctx number text =>
      simp only [run, runLine, hbegin, check]
      cases ctx.target with
      | error cause => exact Or.inl ⟨_, _, rfl, rfl⟩
      | ok target =>
          dsimp only
          split
          · exact Or.inl ⟨_, _, rfl, rfl⟩
          · exact Or.inr (Or.inr ⟨_, _, rfl, rfl⟩)

/-! ## What looks at a request to stop -/

def withStopping (s : Stage) (stopping : Bool) : Stage :=
  { s with engine := { s.engine with stopping } }

theorem check_withStopping (s : Stage) (task : CallTask) (stopping : Bool) :
    (s.withStopping stopping).check task =
      ((s.check task).1.withStopping stopping, (s.check task).2) := by
  cases task with
  | script ctx =>
      simp only [check, withStopping]
      split
      · rfl
      · split <;> rfl
  | line ctx number text =>
      simp only [check, withStopping]
      split
      · rfl
      · split <;> rfl

/-- The run of a line does not look at a request to stop. -/
theorem resume_withStopping (s : Stage) (reply : Reply) {point : Suspension}
    (h : (CallPoint.waiting point).isLine = true) (stopping : Bool) :
    (s.withStopping stopping).resume reply point =
      ((s.resume reply point).1.withStopping stopping, (s.resume reply point).2) := by
  cases point with
  | atLine target step =>
      simp only [resume]
      cases Reply.failure? reply <;> rfl
  | afterLine outcome => rfl
  | beforeStep => cases h
  | atStep => cases h
  | afterStep => cases h
  | afterScript => cases h

/-- After its turn, the run of a line is still one of a line, or is over. -/
theorem isLine_of_resume {s next : Stage} {reply : Reply} {point later : Suspension}
    (h : (CallPoint.waiting point).isLine = true)
    (hr : s.resume reply point = (next, .suspended later)) :
    (CallPoint.waiting later).isLine = true := by
  cases point with
  | atLine target step =>
      simp only [resume] at hr
      obtain ⟨-, hlater⟩ := Prod.mk.inj hr
      obtain rfl := Progress.suspended.inj hlater
      rfl
  | afterLine outcome => cases (Prod.mk.inj hr).2
  | beforeStep => cases h
  | atStep => cases h
  | afterStep => cases h
  | afterScript => cases h

theorem release_withStopping (s : Stage) (locked stopping : Bool) :
    (s.withStopping stopping).release locked = (s.release locked).withStopping stopping := by
  cases locked <;> rfl

end Stage

namespace Workshop

variable {k : Workshop}

@[simp] theorem stage_setStage (k : Workshop) (editor : Nat) (s : Stage) :
    (k.setStage editor s).stage editor = s := by
  simp [stage, setStage]

/-! ## Calls and requests to stop -/

/-- A call while the engine is taken is turned away, and that is all. -/
theorem step_call_of_running (h : k.engine.running = true) (editor : Nat) (task : CallTask) :
    k.step (.call editor task) =
      ({ k with observed := k.observed ++ [.notice (.rejected .busy)] }, .refused .busy) := by
  have hbusy : (k.stage editor).begin = .error .busy := Stage.begin_of_running h
  rw [step, hbusy]
  simp [Stage.reject, Stage.observe, stage, setStage]

/-- A call while the engine is free takes it, and wipes off what was asked of it before. -/
theorem step_call_of_idle (h : k.engine.running = false) (editor : Nat) (task : CallTask) :
    k.step (.call editor task) =
      ({ k with
        engine := { k.engine with running := true, stopping := false }
        calls := k.calls ++ [⟨editor, .taken task⟩] }, .nothing) := by
  have hfree : (k.stage editor).begin = .ok (k.stage editor).take := Stage.begin_of_idle h
  rw [step, hfree]
  simp [stage, setStage, Stage.take]

theorem step_cancel_of_running (h : k.engine.running = true) :
    k.step .cancel = (k.withStopping true, .cancelled true) := by
  simp [step, Engine.cancel, h, withStopping]

theorem step_cancel_of_idle (h : k.engine.running = false) :
    k.step .cancel = (k, .cancelled false) := by
  simp [step, Engine.cancel, h]

/-! ## One call at a time -/

/-- There are as many calls as the engine is taken for: one if it runs, and none otherwise. -/
def Sound (k : Workshop) : Prop :=
  k.calls.length = k.engine.running.toNat

theorem sound_opened (options : EngineOptions) (editors : Nat → Editor) :
    (opened options editors).Sound := rfl

theorem Sound.calls_eq_nil (h : k.Sound) (hidle : k.engine.running = false) : k.calls = [] := by
  rw [Sound, hidle] at h
  exact List.length_eq_zero_iff.1 h

theorem Sound.running_iff (h : k.Sound) : k.engine.running = true ↔ k.calls ≠ [] := by
  constructor
  · intro hrunning hnil
    rw [Sound, hrunning, hnil] at h
    cases h
  · intro hne
    rw [← Bool.not_eq_false]
    exact fun hidle => hne (h.calls_eq_nil hidle)

/-- A call that is not over is the only one. -/
theorem Sound.calls_eq (h : k.Sound) {index : Nat} {c : LiveCall}
    (hc : k.calls[index]? = some c) :
    k.engine.running = true ∧ index = 0 ∧ k.calls = [c] := by
  have hrunning : k.engine.running = true := h.running_iff.2 fun hnil => by
    rw [hnil] at hc
    cases hc
  rw [Sound, hrunning] at h
  obtain ⟨d, hd⟩ := List.length_eq_one_iff.1 h
  rw [hd] at hc
  cases index with
  | zero =>
      obtain rfl : d = c := by simpa using hc
      exact ⟨hrunning, rfl, hd⟩
  | succ index => simp at hc

/-- A turn of a call goes on with it, or ends it and frees the engine. -/
theorem Sound.afterTurn (h : k.Sound) {index editor : Nat} {c : LiveCall} {t : Stage × Progress}
    (hc : k.calls[index]? = some c) (ht : Stage.EngineAfter k.engine t) :
    (k.afterTurn index editor t).1.Sound := by
  obtain ⟨hrunning, rfl, hcalls⟩ := h.calls_eq hc
  obtain ⟨s, progress⟩ := t
  cases progress with
  | suspended point =>
      have hengine : s.engine = k.engine := ht
      show (k.calls.set 0 _).length = s.engine.running.toNat
      rw [hengine, hrunning, hcalls]
      rfl
  | finished outcome =>
      have hengine : s.engine = { k.engine with running := false } := ht
      show (k.calls.eraseIdx 0).length = s.engine.running.toNat
      rw [hengine, hcalls]
      rfl

theorem Sound.call (h : k.Sound) (editor : Nat) (task : CallTask) :
    (k.step (.call editor task)).1.Sound := by
  cases hrunning : k.engine.running with
  | true =>
      rw [step_call_of_running hrunning]
      exact h
  | false =>
      rw [step_call_of_idle hrunning]
      show (k.calls ++ [_]).length = _
      rw [h.calls_eq_nil hrunning]
      rfl

theorem Sound.advance (h : k.Sound) (index : Nat) : (k.step (.advance index)).1.Sound := by
  simp only [step]
  split
  · next editor task hc =>
    -- the look at the task lets the call in or ends it
    obtain ⟨hrunning, rfl, hcalls⟩ := h.calls_eq hc
    obtain ⟨cause, hcheck⟩ | ⟨next, point, hcheck, hengine, -⟩ :=
      (k.stage editor).check_cases task
    · rw [hcheck]
      show (k.calls.eraseIdx 0).length = _
      rw [hcalls]
      rfl
    · rw [hcheck]
      show (k.calls.set 0 _).length = next.engine.running.toNat
      have hkept : next.engine.running = true := by
        rw [hengine]
        exact hrunning
      rw [hkept, hcalls]
      rfl
  · next editor run steps hc =>
    exact h.afterTurn hc (Stage.engineAfter_proceed (k.stage editor) run 1 none steps)
  · exact h

theorem Sound.reply (h : k.Sound) (index : Nat) (reply : Reply) :
    (k.step (.reply index reply)).1.Sound := by
  simp only [step]
  split
  · next editor point hc =>
    exact h.afterTurn hc (Stage.engineAfter_resume (k.stage editor) reply point)
  · exact h

/-- A call that is given up frees the engine, wherever it stands. -/
theorem Sound.drop (h : k.Sound) (index : Nat) : (k.step (.drop index)).1.Sound := by
  simp only [step]
  split
  · next editor point hc =>
    obtain ⟨-, rfl, hcalls⟩ := h.calls_eq hc
    show (k.calls.eraseIdx 0).length = _
    rw [hcalls]
    cases hl : point.locks <;> rfl
  · exact h

/-- Every event keeps a workshop sound. -/
theorem Sound.step (h : k.Sound) (e : CallEvent) : (k.step e).1.Sound := by
  cases e with
  | call editor task => exact h.call editor task
  | advance index => exact h.advance index
  | reply index reply => exact h.reply index reply
  | drop index => exact h.drop index
  | cancel =>
      show k.calls.length = k.engine.cancel.1.running.toNat
      rw [Engine.cancel]
      split <;> exact h
  | touch editor f => exact h

theorem Sound.after (h : k.Sound) (es : List CallEvent) : (k.after es).Sound := by
  induction es generalizing k with
  | nil => exact h
  | cons e es ih => exact ih (h.step e)

/-! ## Requests to stop that no call looks at -/

/-- All calls that are not over are for single lines. -/
def OnlyLines (k : Workshop) : Prop :=
  ∀ c ∈ k.calls, c.point.isLine = true

theorem OnlyLines.eraseIdx (h : k.OnlyLines) (index : Nat) :
    ∀ c ∈ k.calls.eraseIdx index, c.point.isLine = true := fun c hc =>
  h c ((List.eraseIdx_sublist k.calls index).subset hc)

theorem OnlyLines.set (h : k.OnlyLines) (index : Nat) {c' : LiveCall}
    (hline : c'.point.isLine = true) : ∀ c ∈ k.calls.set index c', c.point.isLine = true := by
  intro c hc
  rcases List.mem_or_eq_of_mem_set hc with hc | rfl
  · exact h c hc
  · exact hline

/-- The turn of a call for a line does not look at a request to stop. -/
theorem afterTurn_withStopping (k : Workshop) (index editor : Nat) (s : Stage)
    (progress : Progress) (stopping : Bool) :
    (k.withStopping stopping).afterTurn index editor (s.withStopping stopping, progress) =
      ((k.afterTurn index editor (s, progress)).1.withStopping stopping,
        (k.afterTurn index editor (s, progress)).2) := by
  cases progress <;> rfl

/-- The answer to an event is the same whether or not the engine has been asked to stop, and
afterwards there is no difference at all, or still none that a call looks at. -/
def Indifferent (k : Workshop) (stopping : Bool) (e : CallEvent) : Prop :=
  (k.withStopping stopping).step e = k.step e ∨
    (k.step e).1.OnlyLines ∧ ∃ stopping',
      (k.withStopping stopping).step e = ((k.step e).1.withStopping stopping', (k.step e).2)

section Indifferent

variable (stopping : Bool) (index : Nat)

theorem stage_withStopping (k : Workshop) (editor : Nat) :
    (k.withStopping stopping).stage editor = (k.stage editor).withStopping stopping := rfl

theorem calls_withStopping (k : Workshop) : (k.withStopping stopping).calls = k.calls := rfl

/-- A call that takes the engine wipes the request off. -/
theorem OnlyLines.call (h : k.OnlyLines) (editor : Nat) (task : CallTask) :
    k.Indifferent stopping (.call editor task) := by
  unfold Indifferent
  cases hrunning : k.engine.running with
  | true =>
      rw [step_call_of_running hrunning,
        step_call_of_running (k := k.withStopping stopping) hrunning]
      exact Or.inr ⟨h, stopping, rfl⟩
  | false =>
      rw [step_call_of_idle hrunning, step_call_of_idle (k := k.withStopping stopping) hrunning]
      exact Or.inl rfl

theorem OnlyLines.advance (h : k.OnlyLines) : k.Indifferent stopping (.advance index) := by
  simp only [Indifferent, step, calls_withStopping, stage_withStopping]
  split
  · next editor task hc =>
    have hline := h _ (List.mem_of_getElem? hc)
    rw [Stage.check_withStopping]
    obtain ⟨cause, hcheck⟩ | ⟨next, point, hcheck, -, hpoint⟩ :=
      (k.stage editor).check_cases task
    · rw [hcheck]
      exact Or.inr ⟨h.eraseIdx index, stopping, rfl⟩
    · rw [hcheck]
      exact Or.inr ⟨h.set index (hpoint.trans hline), stopping, rfl⟩
  · next editor run steps hc => exact absurd (h _ (List.mem_of_getElem? hc)) Bool.false_ne_true
  · exact Or.inr ⟨h, stopping, rfl⟩

theorem OnlyLines.reply (h : k.OnlyLines) (reply : Reply) :
    k.Indifferent stopping (.reply index reply) := by
  simp only [Indifferent, step, calls_withStopping, stage_withStopping]
  split
  · next editor point hc =>
    have hline := h _ (List.mem_of_getElem? hc)
    rw [Stage.resume_withStopping _ _ hline, afterTurn_withStopping]
    refine Or.inr ⟨?_, stopping, rfl⟩
    cases hr : (k.stage editor).resume reply point with
    | mk s progress =>
        cases progress with
        | suspended later => exact h.set index (Stage.isLine_of_resume hline hr)
        | finished outcome => exact h.eraseIdx index
  · exact Or.inr ⟨h, stopping, rfl⟩

theorem OnlyLines.drop (h : k.OnlyLines) : k.Indifferent stopping (.drop index) := by
  simp only [Indifferent, step, calls_withStopping, stage_withStopping]
  split
  · next editor point hc =>
    rw [Stage.release_withStopping]
    exact Or.inr ⟨h.eraseIdx index, stopping, rfl⟩
  · exact Or.inr ⟨h, stopping, rfl⟩

/-- Another request to stop is put in the place of the one before. -/
theorem OnlyLines.cancel (h : k.OnlyLines) : k.Indifferent stopping .cancel := by
  unfold Indifferent
  cases hrunning : k.engine.running with
  | true =>
      rw [step_cancel_of_running hrunning,
        step_cancel_of_running (k := k.withStopping stopping) hrunning]
      exact Or.inl rfl
  | false =>
      rw [step_cancel_of_idle hrunning,
        step_cancel_of_idle (k := k.withStopping stopping) hrunning]
      exact Or.inr ⟨h, stopping, rfl⟩

/-- No event makes a difference where no call looks at a request to stop. -/
theorem OnlyLines.step (h : k.OnlyLines) (e : CallEvent) : k.Indifferent stopping e := by
  cases e with
  | call editor task => exact h.call stopping editor task
  | advance index => exact h.advance stopping index
  | reply index reply => exact h.reply stopping index reply
  | drop index => exact h.drop stopping index
  | cancel => exact h.cancel stopping
  | touch editor f => exact Or.inr ⟨h, stopping, rfl⟩

end Indifferent

/-- It makes no difference to anything that happens from now on whether the engine has been asked to
stop. -/
def Heedless (k : Workshop) : Prop :=
  ∀ stopping es, (k.withStopping stopping).answers es = k.answers es ∧
    ∃ stopping', (k.withStopping stopping).after es = (k.after es).withStopping stopping'

/-- A request to stop makes no difference where all calls are for single lines. -/
theorem OnlyLines.heedless (h : k.OnlyLines) : k.Heedless := by
  intro stopping es
  induction es generalizing k stopping with
  | nil => exact ⟨rfl, stopping, rfl⟩
  | cons e es ih =>
      rcases h.step stopping e with hsame | ⟨hlines, stopping', htwin⟩
      · rw [answers, after, hsame]
        exact ⟨rfl, ((k.step e).1.after es).engine.stopping, rfl⟩
      · obtain ⟨hanswers, hafter⟩ := ih hlines stopping'
        rw [answers, after, htwin, hanswers]
        exact ⟨rfl, hafter⟩

theorem heedless_of_calls_eq_nil (h : k.calls = []) : k.Heedless :=
  OnlyLines.heedless fun c hc => by
    rw [h] at hc
    cases hc

/-- A call that is rejected leaves no call behind, and did not look at a request to stop. -/
theorem Sound.advance_refused (h : k.Sound) {index : Nat} {k' : Workshop} {cause : Rejection}
    (hstep : k.step (.advance index) = (k', .refused cause)) (stopping : Bool) :
    k'.calls = [] ∧
      (k.withStopping stopping).step (.advance index) =
        (k'.withStopping stopping, .refused cause) := by
  have hturn : ∀ editor t, k.afterTurn index editor t ≠ (k', .refused cause) := by
    rintro editor ⟨s, progress⟩ heq
    cases progress <;> cases (Prod.mk.inj heq).2
  simp only [Workshop.step] at hstep
  split at hstep
  · next editor task hc =>
    obtain ⟨-, rfl, hcalls⟩ := h.calls_eq hc
    obtain ⟨cause', hcheck⟩ | ⟨next, point, hcheck, -, -⟩ := (k.stage editor).check_cases task
    · rw [hcheck] at hstep
      obtain ⟨rfl, hcause⟩ := Prod.mk.inj hstep
      obtain rfl := CallAnswer.refused.inj hcause
      refine ⟨by rw [hcalls]; rfl, ?_⟩
      have hc' : (k.withStopping stopping).calls[0]? = some ⟨editor, .taken task⟩ := hc
      have hcheck' : ((k.withStopping stopping).stage editor).check task =
          (((k.stage editor).refuse cause').1.withStopping stopping, .error cause') := by
        show ((k.stage editor).withStopping stopping).check task = _
        rw [Stage.check_withStopping, hcheck]
        rfl
      simp only [Workshop.step, hc', hcheck']
      rfl
    · rw [hcheck] at hstep
      cases (Prod.mk.inj hstep).2
  · exact absurd hstep (hturn _ _)
  · cases (Prod.mk.inj hstep).2

/-! ## All together -/

/-- What is promised of a workshop. -/
structure Exclusive (k : Workshop) : Prop where
  /-- At most one call is not over. -/
  one : k.calls.length ≤ 1
  /-- Of all lines that were sent, at most one is not replied to. -/
  outstanding_le : k.outstanding.length ≤ 1
  /-- The engine is taken exactly if there is a call that is not over. -/
  running_iff : k.engine.running = true ↔ k.calls ≠ []
  /-- Then another call is turned away, and nothing is done but to say so. -/
  busy : k.calls ≠ [] → ∀ editor task, k.step (.call editor task) =
    ({ k with observed := k.observed ++ [.notice (.rejected .busy)] }, .refused .busy)
  /-- A request to stop is accepted if there is a call to stop. -/
  cancel_live : k.calls ≠ [] → k.step .cancel = (k.withStopping true, .cancelled true)
  /-- Otherwise it is turned away, and does nothing. -/
  cancel_idle : k.calls = [] → k.step .cancel = (k, .cancelled false)
  /-- Once no call is left, it makes no difference what was asked of the engine before. -/
  forgotten : k.calls = [] → k.Heedless
  /-- Nor does it to the call for a line, and to what comes after it. -/
  line : k.OnlyLines → k.Heedless
  /-- Nor does it to a call that is rejected, and to what comes after it. -/
  rejected : ∀ index k' cause, k.step (.advance index) = (k', .refused cause) →
    ∀ stopping es, (k.withStopping stopping).answers (.advance index :: es) =
      k.answers (.advance index :: es)

theorem Sound.exclusive (h : k.Sound) : k.Exclusive where
  one := by
    rw [h]
    exact Bool.toNat_le _
  outstanding_le := by
    refine Nat.le_trans (List.length_filterMap_le _ _) ?_
    rw [h]
    exact Bool.toNat_le _
  running_iff := h.running_iff
  busy := fun hne => step_call_of_running (h.running_iff.2 hne)
  cancel_live := fun hne => step_cancel_of_running (h.running_iff.2 hne)
  cancel_idle := fun hnil => step_cancel_of_idle <| by
    rw [← Bool.not_eq_true, h.running_iff]
    exact fun hne => hne hnil
  forgotten := heedless_of_calls_eq_nil
  line := OnlyLines.heedless
  rejected := fun index k' cause hstep stopping es => by
    obtain ⟨hnil, htwin⟩ := h.advance_refused hstep stopping
    rw [answers, answers, htwin, hstep, (heedless_of_calls_eq_nil hnil stopping es).1]

/-- **One call at a time, and no request to stop outlives its call**, whatever the callers of an
engine do. -/
theorem exclusive_after (options : EngineOptions) (editors : Nat → Editor)
    (es : List CallEvent) : ((opened options editors).after es).Exclusive :=
  ((sound_opened options editors).after es).exclusive

/-! ## Calls that nobody comes in between -/

/-- A workshop after the run of a script or a line up to its first suspension, and what is said to
the caller: first that the call was let in, then whether it is rejected, then whether it has ended. -/
def settled (k : Workshop) (editor : Nat) :
    Stage × Except Rejection Progress → Workshop × List CallAnswer
  | (s, .error cause) => (k.setStage editor s, [.nothing, .refused cause, .nothing])
  | (s, .ok (.suspended point)) =>
    ({ k.setStage editor s with calls := [⟨editor, .waiting point⟩] },
      [.nothing, .nothing, .nothing])
  | (s, .ok (.finished outcome)) => (k.setStage editor s, [.nothing, .nothing, .ended outcome])

/-- A call that takes a free engine, and that nobody comes in between, is the run of the script or
the line. -/
theorem settled_call (h : k.Sound) (hidle : k.engine.running = false) (editor : Nat)
    (task : CallTask) :
    (k.after [.call editor task, .advance 0, .advance 0],
        k.answers [.call editor task, .advance 0, .advance 0]) =
      k.settled editor ((k.stage editor).run task) := by
  have hnil : k.calls = [] := h.calls_eq_nil hidle
  let k₁ : Workshop :=
    { k with
      engine := { k.engine with running := true, stopping := false }
      calls := [⟨editor, .taken task⟩] }
  have hfirst : k.step (.call editor task) = (k₁, .nothing) := by
    rw [step_call_of_idle hidle, hnil]
    rfl
  have htaken : k₁.calls[0]? = some ⟨editor, .taken task⟩ := rfl
  have hstage : k₁.stage editor = (k.stage editor).take := rfl
  have hidle' : (k.stage editor).engine.running = false := hidle
  obtain ⟨next, cause, hcheck, hrun⟩ | ⟨next, run, steps, hcheck, hrun⟩ |
    ⟨next, point, hcheck, hrun⟩ := Stage.run_cases hidle' task
  · have hsecond : k₁.step (.advance 0) = (k.setStage editor next, .refused cause) := by
      simp only [step, htaken, hstage, hcheck]
      simp [setStage, k₁, hnil]
    have hthird : (k.setStage editor next).step (.advance 0) =
        (k.setStage editor next, .nothing) := by
      simp [step, setStage, hnil]
    simp only [after, answers, hfirst, hsecond, hthird, hrun, settled]
  · let k₂ : Workshop := { k.setStage editor next with calls := [⟨editor, .opened run steps⟩] }
    have hsecond : k₁.step (.advance 0) = (k₂, .nothing) := by
      simp only [step, htaken, hstage, hcheck]
      rfl
    have hthird : k₂.step (.advance 0) = k₂.afterTurn 0 editor (next.proceed run 1 none steps) := by
      have hopened : k₂.calls[0]? = some ⟨editor, .opened run steps⟩ := rfl
      have hnext : k₂.stage editor = next := k.stage_setStage editor next
      simp only [step, hopened, hnext]
    simp only [after, answers, hfirst, hsecond, hthird, hrun]
    cases next.proceed run 1 none steps with
    | mk s progress =>
        cases progress <;> simp [afterTurn, settled, setStage, k₂, hnil]
  · let k₂ : Workshop := { k.setStage editor next with calls := [⟨editor, .waiting point⟩] }
    have hsecond : k₁.step (.advance 0) = (k₂, .nothing) := by
      simp only [step, htaken, hstage, hcheck]
      rfl
    have hthird : k₂.step (.advance 0) = (k₂, .nothing) := rfl
    simp only [after, answers, hfirst, hsecond, hthird, hrun, settled]
    rfl

end Workshop

end StepScript
