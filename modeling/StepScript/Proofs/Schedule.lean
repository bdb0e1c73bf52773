import StepScript.Run.Drive

/-!
# Runs on a schedule

A run is only one of the things that happen to a stage. What happens while it waits for a reply is a
list of **moves**; a **schedule** gives the moves and the reply for every request, so that all
schedules together are all devices with all that can happen meanwhile. A **host** is a stage that
follows a schedule and keeps a log of its exchanges.

Main statements:

* `Stage.engine_play` — moves neither end a run nor take a request to stop back;
* `Stage.runScript_eq_ok` — a run that is accepted is its opening and its first turn;
* `Host.drive_suspended` — one exchange of a run;
* `Host.SameLines.drive` — what a refresh replies makes no difference to a run.
-/

set_option autoImplicit false

namespace StepScript

/-! ## Moves -/

/-- One thing that happens to a stage while a run waits. -/
inductive Move where
  /-- The run is asked to stop. -/
  | cancel
  /-- Anything is done to the editor. -/
  | touch (f : Editor → Editor)
  /-- A script is to be run. -/
  | runScript (ctx : RunContext)
  /-- A line is to be run on its own. -/
  | runLine (ctx : RunContext) (line : Nat) (text : List Char)

namespace Stage

/-- A stage after a move, and whether the move was a request to stop that was accepted. -/
def move (s : Stage) : Move → Stage × Bool
  | .cancel => s.cancel
  | .touch f => (s.mapEditor f, false)
  | .runScript ctx => ((s.runScript ctx).1, false)
  | .runLine ctx line text => ((s.runLine ctx line text).1, false)

/-- A stage after some moves, and whether a request to stop was accepted among them. -/
def play (s : Stage) : List Move → Stage × Bool
  | [] => (s, false)
  | m :: moves => (((s.move m).1.play moves).1, (s.move m).2 || ((s.move m).1.play moves).2)

/-- A second run is rejected while one is going on. -/
theorem begin_of_running {s : Stage} (h : s.engine.running = true) : s.begin = .error .busy := by
  rw [begin, if_pos h]

/-- One move while a run is going on: the run goes on, and is asked to stop if the move says so. -/
theorem engine_move {s : Stage} (h : s.engine.running = true) (m : Move) :
    (s.move m).1.engine = { s.engine with stopping := s.engine.stopping || (s.move m).2 } := by
  cases m with
  | cancel => simp [move, cancel, Engine.cancel, h]
  | touch f => simp [move, mapEditor]
  | runScript ctx => simp [move, runScript, begin_of_running h, reject, observe]
  | runLine ctx line text => simp [move, runLine, begin_of_running h, reject, observe]

/-- Moves while a run is going on neither end it nor take a request to stop back. -/
theorem engine_play {s : Stage} (h : s.engine.running = true) (moves : List Move) :
    (s.play moves).1.engine =
      { s.engine with stopping := s.engine.stopping || (s.play moves).2 } := by
  induction moves generalizing s with
  | nil => simp [play]
  | cons m moves ih =>
      have hmove := engine_move h m
      have hrunning : (s.move m).1.engine.running = true := by
        rw [hmove]
        exact h
      rw [play, ih hrunning, hmove, Bool.or_assoc]

/-! ## Openings -/

/-- What a run of a script starts with, once it is accepted. -/
structure Opening where
  /-- The stage after the observer was told that the run starts. -/
  stage : Stage
  run : ScriptRun
  steps : List Step

/-- What a run of a script starts with, or why it is rejected. -/
def opening (s : Stage) (ctx : RunContext) : Except Rejection Opening :=
  match s.begin with
  | .error cause => .error cause
  | .ok taken =>
    match ctx.target with
    | .error cause => .error cause
    | .ok target =>
      match Step.ofScript s.editor.language s.editor.content with
      | [] => .error .noCommands
      | step :: rest =>
        .ok ⟨(taken.mapEditor fun e => e.clearHighlight.lock).observe
          (.scriptStarted (rest.length + 1)), ⟨target, rest.length + 1⟩, step :: rest⟩

/-- The first turn of a run, after some moves. -/
def Opening.launch (o : Opening) (early : List Move) : Stage × Progress :=
  (o.stage.play early).1.proceed o.run 1 none o.steps

/-- A run that is accepted is its opening and its first turn. -/
theorem runScript_eq_ok {s next : Stage} {ctx : RunContext} {progress : Progress} :
    s.runScript ctx = (next, .ok progress) ↔
      ∃ o, s.opening ctx = .ok o ∧ o.launch [] = (next, progress) := by
  unfold runScript opening
  cases hb : s.begin with
  | error cause => simp [reject]
  | ok taken =>
      cases ht : ctx.target with
      | error cause => simp [reject]
      | ok target =>
          cases hs : Step.ofScript s.editor.language s.editor.content with
          | nil => simp [reject]
          | cons step rest =>
              simp only [Except.ok.injEq, exists_eq_left', Opening.launch, play, Prod.ext_iff]

/-- A run is accepted if the engine is idle, there is a target, and there is something to run. -/
theorem exists_runScript_eq_ok {s : Stage} {ctx : RunContext} {target : Target}
    (hidle : s.engine.running = false) (htarget : ctx.target = .ok target)
    (hsteps : Step.ofScript s.editor.language s.editor.content ≠ []) :
    ∃ next progress, s.runScript ctx = (next, .ok progress) := by
  unfold runScript begin
  rw [if_neg (by simp [hidle]), htarget]
  cases hs : Step.ofScript s.editor.language s.editor.content with
  | nil => exact absurd hs hsteps
  | cons step rest => exact ⟨_, _, rfl⟩

/-- What is known of a run that is accepted. -/
theorem of_opening {s : Stage} {ctx : RunContext} {o : Opening} (h : s.opening ctx = .ok o) :
    o.stage.engine = { s.engine with running := true, stopping := false } ∧
      ctx.target = .ok o.run.target ∧ o.run.total = o.steps.length ∧
      o.steps = Step.ofScript s.editor.language s.editor.content := by
  unfold opening begin at h
  split at h
  · simp at h
  · next taken hb =>
    split at h
    · simp at h
    · next target ht =>
      split at h
      · simp at h
      · next step rest hs =>
        obtain rfl := Except.ok.inj h
        split at hb
        · simp at hb
        · obtain rfl := Except.ok.inj hb
          exact ⟨rfl, ht, rfl, hs.symm⟩

end Stage

/-! ## Schedules -/

namespace Request

def isDispatch : Request → Bool
  | .dispatch .. => true
  | _ => false

def isPause : Request → Bool
  | .pause _ => true
  | _ => false

end Request

/-- What happens while a run waits for the reply to a request. -/
structure Turn where
  moves : List Move
  /-- The reply, if a line was sent. -/
  verdict : Reply
  /-- The reply, if anything else was asked for. -/
  refreshed : Reply

/-- What happens in every exchange of a run, by the number of exchanges before it. -/
abbrev Schedule := Nat → Turn

def Turn.reply (t : Turn) (request : Request) : Reply :=
  if request.isDispatch then t.verdict else t.refreshed

/-- A request, and what came of it. -/
structure Exchange where
  request : Request
  /-- Whether a request to stop was accepted while the run waited. -/
  stopped : Bool
  reply : Reply

def dispatches (log : List Exchange) : List Exchange :=
  log.filter fun x => x.request.isDispatch

/-- A stage on a schedule, and the exchanges so far. -/
structure Host where
  stage : Stage
  log : List Exchange

namespace Host

variable (schedule : Schedule)

def exchange (h : Host) (request : Request) : Exchange :=
  let turn := schedule h.log.length
  ⟨request, (h.stage.play turn.moves).2, turn.reply request⟩

def afterExchange (h : Host) (request : Request) : Host :=
  ⟨(h.stage.play (schedule h.log.length).moves).1, h.log ++ [h.exchange schedule request]⟩

def surroundings : Surroundings Host where
  stage := Host.stage
  setStage stage h := { h with stage }
  meet request h :=
    (h.afterExchange schedule request, some (h.exchange schedule request).reply)

/-- A host after a run of which the progress is given, and the outcome. -/
def drive (h : Host) (progress : Progress) : Host × Option Outcome :=
  (surroundings schedule).drive h progress

theorem drive_finished (h : Host) (outcome : Outcome) :
    h.drive schedule (.finished outcome) = (h, some outcome) := by
  rw [drive, Surroundings.drive]

/-- A host after the next exchange and the turn that it starts. -/
def turn (h : Host) (point : Suspension) : Host × Progress :=
  let request := point.request h.stage.engine.options
  let met := h.afterExchange schedule request
  let resumed := met.stage.resume (h.exchange schedule request).reply point
  ({ met with stage := resumed.1 }, resumed.2)

/-- A run that is suspended goes on after one exchange. -/
theorem drive_suspended (h : Host) (point : Suspension) :
    h.drive schedule (.suspended point) =
      (h.turn schedule point).1.drive schedule (h.turn schedule point).2 := by
  rw [drive, Surroundings.drive]
  rfl

/-- A run ends with the given outcome after the given exchanges. -/
def Ends (h : Host) (progress : Progress) (log : List Exchange) (outcome : Outcome) : Prop :=
  (h.drive schedule progress).1.log = h.log ++ log ∧
    (h.drive schedule progress).2 = some outcome

variable {schedule} {h : Host}

theorem ends_finished (outcome : Outcome) : h.Ends schedule (.finished outcome) [] outcome := by
  rw [Ends, drive_finished, List.append_nil]
  exact ⟨rfl, rfl⟩

theorem ends_suspended {point : Suspension} {log : List Exchange} {outcome : Outcome}
    (hnext : (h.turn schedule point).1.Ends schedule (h.turn schedule point).2 log outcome) :
    h.Ends schedule (.suspended point)
      (h.exchange schedule (point.request h.stage.engine.options) :: log) outcome := by
  obtain ⟨hlog, houtcome⟩ := hnext
  rw [Ends, drive_suspended]
  refine ⟨?_, houtcome⟩
  rw [hlog]
  simp [turn, afterExchange]

/-- While a run waits, it goes on, and it is asked to stop if the exchange says so. -/
theorem engine_afterExchange (hrun : h.stage.engine.running = true) (request : Request) :
    (h.afterExchange schedule request).stage.engine =
      { h.stage.engine with
        stopping := h.stage.engine.stopping || (h.exchange schedule request).stopped } :=
  Stage.engine_play hrun _

end Host

/-! ## Replies to refreshes -/

/-- A schedule in which everything but the lines that are sent is replied to in another way. -/
def Schedule.withRefreshed (schedule : Schedule) (refreshed : Nat → Reply) : Schedule :=
  fun n => { schedule n with refreshed := refreshed n }

/-- Only the reply to a line that was sent makes a difference to a run. -/
theorem Stage.resume_eq_of_not_dispatch (s : Stage) (options : EngineOptions) {point : Suspension}
    (h : (point.request options).isDispatch = false) (r r' : Reply) :
    s.resume r point = s.resume r' point := by
  cases point with
  | atStep run number step rest => exact absurd h.symm Bool.false_ne_true
  | atLine target step => exact absurd h.symm Bool.false_ne_true
  | beforeStep run number last step rest => rfl
  | afterStep run number step rest => rfl
  | afterScript run => rfl
  | afterLine outcome => rfl

namespace Host

/-- Two hosts that differ at most in what was replied to anything but a line that was sent. -/
structure SameLines (h h' : Host) : Prop where
  stage_eq : h'.stage = h.stage
  length_eq : h'.log.length = h.log.length
  dispatches_eq : dispatches h'.log = dispatches h.log

theorem dispatches_append_singleton (log : List Exchange) (x : Exchange) :
    dispatches (log ++ [x]) = dispatches log ++ if x.request.isDispatch then [x] else [] := by
  rw [dispatches, List.filter_append, List.filter_cons]
  rfl

variable {h h' : Host} (schedule : Schedule) (refreshed : Nat → Reply)

/-- One exchange keeps two hosts the same in all but the other replies. -/
theorem SameLines.turn (hsame : SameLines h h') (point : Suspension) :
    SameLines (h.turn schedule point).1 (h'.turn (schedule.withRefreshed refreshed) point).1 ∧
      (h'.turn (schedule.withRefreshed refreshed) point).2 = (h.turn schedule point).2 := by
  obtain ⟨stage, log⟩ := h
  obtain ⟨stage', log'⟩ := h'
  obtain ⟨hstage, hlength, hsent⟩ := hsame
  obtain rfl : stage' = stage := hstage
  have hlen : log'.length = log.length := hlength
  let request := point.request stage'.engine.options
  let met := (stage'.play (schedule log.length).moves).1
  let x := Host.exchange schedule ⟨stage', log⟩ request
  let x' := Host.exchange (schedule.withRefreshed refreshed) ⟨stage', log'⟩ request
  have hturn : Host.turn schedule ⟨stage', log⟩ point =
      (⟨(met.resume x.reply point).1, log ++ [x]⟩, (met.resume x.reply point).2) := rfl
  have hturn' : Host.turn (schedule.withRefreshed refreshed) ⟨stage', log'⟩ point =
      (⟨(met.resume x'.reply point).1, log' ++ [x']⟩, (met.resume x'.reply point).2) := by
    show (_, _) = (_, _)
    simp only [Host.afterExchange, Schedule.withRefreshed, hlen]
    rfl
  have hequal : request.isDispatch = true → x' = x := by
    intro hdispatch
    simp only [x, x', Host.exchange, Turn.reply, Schedule.withRefreshed, hlen, if_pos hdispatch]
  have hresume : met.resume x'.reply point = met.resume x.reply point := by
    by_cases hdispatch : request.isDispatch = true
    · rw [hequal hdispatch]
    · exact met.resume_eq_of_not_dispatch stage'.engine.options (by simpa using hdispatch) _ _
  rw [hturn, hturn', hresume]
  refine ⟨⟨rfl, ?_, ?_⟩, rfl⟩
  · rw [List.length_append, List.length_append, hlen]
    rfl
  · show dispatches (log' ++ [x']) = dispatches (log ++ [x])
    rw [dispatches_append_singleton, dispatches_append_singleton, hsent]
    by_cases hdispatch : request.isDispatch = true
    · rw [hequal hdispatch]
    · have hx : x.request.isDispatch = false := Bool.eq_false_iff.2 hdispatch
      have hx' : x'.request.isDispatch = false := Bool.eq_false_iff.2 hdispatch
      rw [hx, hx']
      rfl

/-- What is replied to anything but a line that was sent makes no difference to a run. -/
theorem SameLines.drive (hsame : SameLines h h') (progress : Progress) :
    SameLines (h.drive schedule progress).1
        (h'.drive (schedule.withRefreshed refreshed) progress).1 ∧
      (h'.drive (schedule.withRefreshed refreshed) progress).2 =
        (h.drive schedule progress).2 := by
  -- the induction is on the number of replies that the run still takes
  induction hn : progress.budget using Nat.strongRecOn generalizing h h' progress with
  | _ n ih =>
      cases progress with
      | finished outcome =>
          rw [drive_finished, drive_finished]
          exact ⟨hsame, rfl⟩
      | suspended point =>
          obtain ⟨hnext, hprogress⟩ := hsame.turn schedule refreshed point
          rw [drive_suspended, drive_suspended, hprogress]
          refine ih _ ?_ hnext _ rfl
          rw [← hn]
          exact Progress.budget_resume _ _ _

end Host

/-- A host after a whole run that is launched after some moves, and the outcome. -/
def Stage.Opening.drive (o : Stage.Opening) (early : List Move) (schedule : Schedule) :
    Host × Option Outcome :=
  Host.drive schedule ⟨(o.launch early).1, []⟩ (o.launch early).2

end StepScript
