import StepScript.Proofs.FrozenRun
import StepScript.Proofs.RunRelation

/-!
# The trace of a run

Observations and exchanges are kept in two places, the stage and the host. A **recorder** writes both
down in one **trace**, in the order in which they happen. Other calls may be rejected while a run
waits, and then leave their notices in the trace; all the rest of a trace is what the run itself tells
and asks for.

The trace of a run is described by a relation that follows the steps, one constructor for each way a
step can go. What is promised of a trace is read off the relation.

Main statements:

* `Recorder.host_drive` — a recorder does not disturb the run that it records;
* `Recorder.exchanges_drive` — the exchanges in a trace are those of the log;
* `Recorder.goes` — every run is recorded as the relation says;
* `TracesFrom.narrative`, `TracesFrom.sendsAnnounced` — what the relation says about the trace;
* `Stage.truthful_run` — what is promised of the trace of every run, and of every rejected call.
-/

set_option autoImplicit false

namespace StepScript

/-! ## Events -/

/-- One thing in a trace. -/
inductive Event where
  /-- The observer was told something. -/
  | told (o : Observation)
  /-- A request was made, of which the given exchange came. -/
  | met (x : Exchange)

/-- The notice of a call that was rejected because a run was going on. -/
def busyNotice : Observation := .notice (.rejected .busy)

namespace Event

/-- Whether an event is one that a run has to tell of itself: it is not the notice of another call,
and not a refresh nor a pause. -/
def isOwn : Event → Bool
  | .told (.notice (.rejected .busy)) => false
  | .told _ => true
  | .met x => x.request.isDispatch

/-- Sending a step is a run's own. -/
theorem isOwn_of_dispatch {x : Exchange} {target : Target} {text : List Char}
    (h : x.request = .dispatch target text) : (met x).isOwn = true := by
  rw [isOwn, h]
  rfl

/-- The exchange of an event. -/
def exchange? : Event → Option Exchange
  | .told _ => none
  | .met x => some x

def announces : Event → Bool
  | .told (.stepStarted ..) => true
  | _ => false

/-- An event that is not the run's own. Notices of other calls only occur if there are `calls`. -/
inductive Other (calls : Prop) : Event → Prop
  | notice (h : calls) : Other calls (.told busyNotice)
  | met {x : Exchange} (h : x.request.isDispatch = false) : Other calls (.met x)

theorem Other.mono {calls calls' : Prop} {e : Event} (hcalls : calls → calls') (h : e.Other calls) :
    e.Other calls' := by
  cases h with
  | notice h => exact .notice (hcalls h)
  | met h => exact .met h

theorem Other.isOwn_eq_false {calls : Prop} {e : Event} (h : e.Other calls) : e.isOwn = false := by
  cases h with
  | notice h => rfl
  | met h => exact h

theorem Other.announces_eq_false {calls : Prop} {e : Event} (h : e.Other calls) :
    e.announces = false := by
  cases h with
  | notice h => rfl
  | met h => rfl

end Event

theorem filter_isOwn_of_other {calls : Prop} {others : List Event}
    (h : ∀ e ∈ others, e.Other calls) : others.filter Event.isOwn = [] := by
  refine List.filter_eq_nil_iff.2 fun e he => ?_
  rw [(h e he).isOwn_eq_false]
  exact Bool.false_ne_true

/-! ## Calls of others -/

def Move.isCall : Move → Bool
  | .runScript _ | .runLine .. => true
  | _ => false

/-- What the observer is told of the calls among some moves while a run is going on. -/
def busyNotices (moves : List Move) : List Observation :=
  (moves.filter Move.isCall).map fun _ => busyNotice

theorem other_of_mem_busyNotices {calls : Prop} {moves : List Move}
    (h : ∀ m ∈ moves, m.isCall = true → calls) :
    ∀ e ∈ (busyNotices moves).map .told, Event.Other calls e := by
  intro e he
  obtain ⟨o, ho, rfl⟩ := List.mem_map.1 he
  obtain ⟨m, hm, rfl⟩ := List.mem_map.1 ho
  obtain ⟨hm, hcall⟩ := List.mem_filter.1 hm
  exact .notice (h m hm hcall)

namespace Stage

/-- What the observer was told between two stages. -/
def toldSince (s later : Stage) : List Event :=
  (later.observed.drop s.observed.length).map .told

theorem toldSince_of_append {s later : Stage} {told : List Observation}
    (h : later.observed = s.observed ++ told) : s.toldSince later = told.map .told := by
  rw [toldSince, h, List.drop_left]

/-- While a run is going on, the observer is told of every call that it is rejected, and of nothing
else. -/
theorem observed_play {s : Stage} (h : s.engine.running = true) (moves : List Move) :
    (s.play moves).1.observed = s.observed ++ busyNotices moves := by
  induction moves generalizing s with
  | nil => exact (List.append_nil _).symm
  | cons m moves ih =>
      have hmove : (s.move m).1.observed = s.observed ++ busyNotices [m] := by
        cases m with
        | cancel => exact (List.append_nil _).symm
        | touch f => exact (List.append_nil _).symm
        | runScript ctx => simp [move, runScript, begin_of_running h, reject, observe]; rfl
        | runLine ctx line text => simp [move, runLine, begin_of_running h, reject, observe]; rfl
      have hcons : busyNotices (m :: moves) = busyNotices [m] ++ busyNotices moves := by
        cases m <;> rfl
      rw [play, ih (running_move h m), hmove, hcons, List.append_assoc]

end Stage

def Schedule.HasCalls (schedule : Schedule) : Prop :=
  ∃ n, ∃ m ∈ (schedule n).moves, m.isCall = true

/-! ## Recorders -/

/-- A host and the trace of its run. -/
structure Recorder where
  host : Host
  trace : List Event

namespace Recorder

def start (s : Stage) : Recorder := ⟨⟨s, []⟩, s.observed.map .told⟩

/-- A recorder on another stage: what the observer was told meanwhile is written down. -/
def setStage (s : Stage) (r : Recorder) : Recorder :=
  ⟨{ r.host with stage := s }, r.trace ++ r.host.stage.toldSince s⟩

variable (schedule : Schedule)

/-- A recorder after the next exchange. The request comes first, then what the observer is told while
the run waits. -/
def afterExchange (r : Recorder) (request : Request) : Recorder :=
  let host := r.host.afterExchange schedule request
  ⟨host, r.trace ++ .met (r.host.exchange schedule request) :: r.host.stage.toldSince host.stage⟩

def surroundings : Surroundings Recorder where
  stage r := r.host.stage
  setStage := setStage
  meet request r :=
    (r.afterExchange schedule request, some (r.host.exchange schedule request).reply)

/-- A recorder after a run of which the progress is given, and the outcome. -/
def drive (r : Recorder) (progress : Progress) : Recorder × Option Outcome :=
  (surroundings schedule).drive r progress

/-- A recorder after a turn and all turns behind it, and the outcome. -/
def follow (r : Recorder) (t : Stage × Progress) : Recorder × Option Outcome :=
  (r.setStage t.1).drive schedule t.2

theorem drive_finished (r : Recorder) (outcome : Outcome) :
    r.drive schedule (.finished outcome) = (r, some outcome) := by
  rw [drive, Surroundings.drive]

theorem drive_suspended (r : Recorder) (point : Suspension) :
    r.drive schedule (.suspended point) =
      (r.afterExchange schedule (point.request r.host.stage.engine.options)).follow schedule
        (((r.host.afterExchange schedule (point.request r.host.stage.engine.options)).stage).resume
          (r.host.exchange schedule (point.request r.host.stage.engine.options)).reply point) := by
  rw [drive, Surroundings.drive]
  rfl

/-- A recorder does not disturb the run that it records. -/
theorem host_drive (r : Recorder) (progress : Progress) :
    (r.drive schedule progress).1.host = (r.host.drive schedule progress).1 ∧
      (r.drive schedule progress).2 = (r.host.drive schedule progress).2 := by
  -- the induction is on the number of replies that the run still takes
  induction hn : progress.budget using Nat.strongRecOn generalizing r progress with
  | _ n ih =>
      cases progress with
      | finished outcome =>
          rw [drive_finished, Host.drive_finished]
          exact ⟨rfl, rfl⟩
      | suspended point =>
          rw [drive_suspended, Host.drive_suspended]
          refine ih _ ?_ _ _ rfl
          rw [← hn]
          exact Progress.budget_resume _ _ _

theorem exchanges_told (told : List Observation) :
    (told.map Event.told).filterMap Event.exchange? = [] := by
  rw [List.filterMap_map]
  exact List.filterMap_eq_nil_iff.2 fun _ _ => rfl

/-- What is written down of a stage is no exchange. -/
theorem exchanges_setStage (s : Stage) (r : Recorder) :
    (r.setStage s).trace.filterMap Event.exchange? = r.trace.filterMap Event.exchange? := by
  rw [setStage, List.filterMap_append, Stage.toldSince, exchanges_told, List.append_nil]

theorem exchanges_afterExchange (r : Recorder) (request : Request) :
    (r.afterExchange schedule request).trace.filterMap Event.exchange? =
      r.trace.filterMap Event.exchange? ++ [r.host.exchange schedule request] := by
  have hmet : Event.exchange? (.met (r.host.exchange schedule request)) =
      some (r.host.exchange schedule request) := rfl
  rw [afterExchange, List.filterMap_append, List.filterMap_cons_some hmet, Stage.toldSince,
    exchanges_told]

/-- The exchanges in a trace are those of the log, in the same order. -/
theorem exchanges_drive (r : Recorder) (progress : Progress)
    (h : r.trace.filterMap Event.exchange? = r.host.log) :
    (r.drive schedule progress).1.trace.filterMap Event.exchange? =
      (r.drive schedule progress).1.host.log := by
  -- the induction is on the number of replies that the run still takes
  induction hn : progress.budget using Nat.strongRecOn generalizing r progress with
  | _ n ih =>
      cases progress with
      | finished outcome =>
          rw [drive_finished]
          exact h
      | suspended point =>
          rw [drive_suspended]
          refine ih _ ?_ _ _ ?_ rfl
          · rw [← hn]
            exact Progress.budget_resume _ _ _
          · rw [exchanges_setStage, exchanges_afterExchange, h]
            rfl

/-- What a turn and all turns behind it add to the trace, and the outcome. -/
def Records (r : Recorder) (t : Stage × Progress) (events : List Event) (outcome : Outcome) : Prop :=
  (r.follow schedule t).1.trace = r.trace ++ events ∧ (r.follow schedule t).2 = some outcome

variable {schedule} {r : Recorder}

/-- A turn that ends a run. -/
theorem records_finished {s : Stage} {told : List Observation} (outcome : Outcome)
    (h : s.observed = r.host.stage.observed ++ told) :
    r.Records schedule (s, .finished outcome) (told.map .told) outcome := by
  rw [Records, follow, drive_finished]
  exact ⟨congrArg (r.trace ++ ·) (Stage.toldSince_of_append h), rfl⟩

variable (schedule)

/-- A turn that ends at a suspension: one exchange comes next, during which only other calls are told
of. -/
theorem exists_exchange {s : Stage} {told : List Observation}
    (h : s.observed = r.host.stage.observed ++ told) (hrun : s.engine.running = true)
    (point : Suspension) :
    ∃ (x : Exchange) (others : List Event) (met : Recorder),
      x.request = point.request s.engine.options ∧
      (∀ e ∈ others, e.Other schedule.HasCalls) ∧ met.host.stage.engine.running = true ∧
      ∀ more outcome, met.Records schedule (met.host.stage.resume x.reply point) more outcome →
        r.Records schedule (s, .suspended point) (told.map .told ++ .met x :: (others ++ more))
          outcome := by
  let waiting := r.setStage s
  let request := point.request s.engine.options
  let moves := (schedule waiting.host.log.length).moves
  have hbusy : (waiting.host.afterExchange schedule request).stage.observed =
      s.observed ++ busyNotices moves := Stage.observed_play hrun moves
  refine ⟨waiting.host.exchange schedule request, (busyNotices moves).map .told,
    waiting.afterExchange schedule request, rfl, ?_, ?_, ?_⟩
  · exact other_of_mem_busyNotices fun m hm hcall => ⟨_, m, hm, hcall⟩
  · show ((waiting.host.afterExchange schedule request).stage).engine.running = true
    rw [Host.engine_afterExchange hrun]
    exact hrun
  · rintro more outcome ⟨htrace, houtcome⟩
    rw [Records, follow, drive_suspended]
    refine ⟨htrace.trans ?_, houtcome⟩
    show r.trace ++ r.host.stage.toldSince s ++ .met (waiting.host.exchange schedule request) ::
      s.toldSince (waiting.host.afterExchange schedule request).stage ++ more = _
    rw [Stage.toldSince_of_append h, Stage.toldSince_of_append hbusy]
    simp [waiting, request]

end Recorder

/-! ## The relation -/

/-- The trace and the outcome of a run that stands in front of the given steps, of which the first has
the given number. `last` is the line of the step before, and `calls` says whether there are other
calls meanwhile. -/
inductive TracesFrom (calls : Prop) (run : ScriptRun) :
    Nat → Option Nat → List Step → List Event → Outcome → Prop
  /-- The run waits, or another call is rejected. -/
  | other {number : Nat} {last : Option Nat} {steps : List Step} {e : Event} {events : List Event}
      {outcome : Outcome} (he : e.Other calls)
      (hevents : TracesFrom calls run number last steps events outcome) :
      TracesFrom calls run number last steps (e :: events) outcome
  /-- The run finds that it was asked to stop. -/
  | stopped (number : Nat) (last : Option Nat) (steps : List Step) :
      TracesFrom calls run number last steps
        [.told (.notice .aborted), .told (.scriptFinished (.cancelled last))] (.cancelled last)
  /-- A step fails. -/
  | failed (number : Nat) (last : Option Nat) (step : Step) (rest : List Step) {x : Exchange}
      {others : List Event} {message : List Char}
      (hrequest : x.request = .dispatch run.target step.text)
      (hothers : ∀ e ∈ others, e.Other calls) (hreply : Reply.failure? x.reply = some message) :
      TracesFrom calls run number last (step :: rest)
        (.told (.stepStarted number run.total step.line step.text) :: .met x :: (others ++
          [.told (.stepFailed number message), .told (.notice (.failed message)),
            .told (.scriptFinished (.failed step.line message))])) (.failed step.line message)
  /-- A step succeeds. -/
  | succeeded (number : Nat) (last : Option Nat) (step : Step) (rest : List Step) {x : Exchange}
      {others events : List Event} {outcome : Outcome}
      (hrequest : x.request = .dispatch run.target step.text)
      (hothers : ∀ e ∈ others, e.Other calls) (hreply : Reply.failure? x.reply = none)
      (hrest : TracesFrom calls run (number + 1) (some step.line) rest events outcome) :
      TracesFrom calls run number last (step :: rest)
        (.told (.stepStarted number run.total step.line step.text) :: .met x :: (others ++
          .told (.stepSucceeded number) :: events)) outcome
  /-- There are no more steps. -/
  | completed (number : Nat) (last : Option Nat) :
      TracesFrom calls run number last []
        [.told (.notice .completed), .told (.scriptFinished (.completed run.total))]
        (.completed run.total)

theorem TracesFrom.others {calls : Prop} {run : ScriptRun} {number : Nat} {last : Option Nat}
    {steps : List Step} {others events : List Event} {outcome : Outcome}
    (hothers : ∀ e ∈ others, e.Other calls)
    (hevents : TracesFrom calls run number last steps events outcome) :
    TracesFrom calls run number last steps (others ++ events) outcome := by
  induction others with
  | nil => exact hevents
  | cons e others ih =>
      rw [List.forall_mem_cons] at hothers
      exact .other hothers.1 (ih hothers.2)

/-! ## Turns -/

namespace Recorder

variable {schedule : Schedule} {run : ScriptRun} {r : Recorder}

/-- Runs of the given steps are recorded as the relation says, from every stage that runs. -/
def Goes (schedule : Schedule) (run : ScriptRun) (steps : List Step) : Prop :=
  ∀ (r : Recorder) (number : Nat) (last : Option Nat), r.host.stage.engine.running = true →
    ∃ events outcome,
      r.Records schedule (r.host.stage.proceed run number last steps) events outcome ∧
        TracesFrom schedule.HasCalls run number last steps events outcome

/-- The end of a run tells the outcome, after a notice. -/
theorem records_finish {s : Stage} (told : List Observation)
    (h : s.observed = r.host.stage.observed ++ told) (n : Notice) (outcome : Outcome) :
    r.Records schedule (s.finish n outcome)
      (told.map .told ++ [.told (.notice n), .told (.scriptFinished outcome)]) outcome := by
  have hend : (s.finish n outcome).1.observed =
      r.host.stage.observed ++ (told ++ [.notice n, .scriptFinished outcome]) := by
    show s.observed ++ [.notice n] ++ [.scriptFinished outcome] = _
    rw [h]
    simp
  have hrecords : r.Records schedule (s.finish n outcome)
      ((told ++ [Observation.notice n, .scriptFinished outcome]).map .told) outcome :=
    records_finished outcome hend
  rw [List.map_append] at hrecords
  exact hrecords

/-- A run that finds that it was asked to stop. -/
theorem exists_records_abort (number : Nat) (last : Option Nat) (steps : List Step) :
    ∃ events outcome, r.Records schedule (r.host.stage.abort last) events outcome ∧
      TracesFrom schedule.HasCalls run number last steps events outcome :=
  ⟨_, _, records_finish [] (List.append_nil _).symm .aborted (.cancelled last),
    .stopped number last steps⟩

/-- A run in which every step succeeded. -/
theorem exists_records_complete (number : Nat) (last : Option Nat) :
    ∃ events outcome, r.Records schedule (r.host.stage.complete run) events outcome ∧
      TracesFrom schedule.HasCalls run number last [] events outcome :=
  ⟨_, _, records_finish (s := r.host.stage.mapEditor .clearHighlight) [] (List.append_nil _).symm
    .completed (.completed run.total), .completed number last⟩

/-- A run that waits for a refresh or a pause goes on as from the stage where it is met again. -/
theorem exists_records_wait {number : Nat} {last : Option Nat} {steps : List Step} {s : Stage}
    (told : List Observation) (h : s.observed = r.host.stage.observed ++ told)
    (hrun : s.engine.running = true) (point : Suspension)
    (hpoint : (point.request s.engine.options).isDispatch = false)
    (hresume : ∀ (met : Recorder) (reply : Reply), met.host.stage.engine.running = true →
      ∃ events outcome,
        met.Records schedule (met.host.stage.resume reply point) events outcome ∧
          TracesFrom schedule.HasCalls run number last steps events outcome) :
    ∃ events outcome,
      r.Records schedule (s, .suspended point) (told.map .told ++ events) outcome ∧
        TracesFrom schedule.HasCalls run number last steps events outcome := by
  obtain ⟨x, others, met, hx, hothers, hmet, hrecords⟩ := exists_exchange schedule h hrun point
  obtain ⟨events, outcome, hevents, htraces⟩ := hresume met x.reply hmet
  refine ⟨_, outcome, hrecords _ _ hevents, .other (.met ?_) (.others hothers htraces)⟩
  rw [hx]
  exact hpoint

/-- A run from the sending of a step on. -/
theorem exists_records_send (hrun : r.host.stage.engine.running = true) (number : Nat)
    (last : Option Nat) (step : Step) {rest : List Step} (hrest : Goes schedule run rest) :
    ∃ events outcome, r.Records schedule (r.host.stage.send run number step rest) events outcome ∧
      TracesFrom schedule.HasCalls run number last (step :: rest) events outcome := by
  let sent : Stage := (r.host.stage.send run number step rest).1
  have hsent : sent.observed = r.host.stage.observed ++
      [.stepStarted number run.total step.line step.text] := rfl
  obtain ⟨x, others, met, hx, hothers, hmet, hrecords⟩ :=
    exists_exchange schedule hsent hrun (.atStep run number step rest)
  cases hreply : Reply.failure? x.reply with
  | some message =>
      have hfail : met.host.stage.resume x.reply (.atStep run number step rest) =
          met.host.stage.fail number step message := by
        rw [Stage.resume, hreply]
      refine ⟨_, _, hrecords _ _ ?_, .failed number last step rest hx hothers hreply⟩
      rw [hfail]
      exact records_finish [.stepFailed number message] rfl (.failed message)
        (.failed step.line message)
  | none =>
      have hgoes : met.host.stage.resume x.reply (.atStep run number step rest) =
          (met.host.stage.observe (.stepSucceeded number),
            .suspended (.afterStep run number step rest)) := by
        rw [Stage.resume, hreply]
      -- the pause comes next, and then the loop again
      obtain ⟨events, outcome, hevents, htraces⟩ :=
        exists_records_wait (r := met) (s := met.host.stage.observe (.stepSucceeded number))
          [.stepSucceeded number] rfl hmet (.afterStep run number step rest) rfl
          fun paused reply hpaused => hrest paused (number + 1) (some step.line) hpaused
      refine ⟨_, outcome, hrecords _ _ ?_, .succeeded number last step rest hx hothers hreply htraces⟩
      rw [hgoes]
      exact hevents

/-- A run from the loop on, where no step is left. -/
theorem goes_nil : Goes schedule run [] := by
  intro r number last hrun
  rw [Stage.proceed]
  split
  · exact exists_records_abort number last []
  · split
    · exact exists_records_wait [] (List.append_nil _).symm hrun (.afterScript run) rfl
        fun met reply hmet => exists_records_complete number last
    · exact exists_records_complete number last

/-- A run from the loop on, where a step is next: the refresh in front of it comes first. -/
theorem goes_cons (step : Step) {rest : List Step} (hrest : Goes schedule run rest) :
    Goes schedule run (step :: rest) := by
  intro r number last hrun
  rw [Stage.proceed]
  split
  · exact exists_records_abort number last (step :: rest)
  · split
    · refine exists_records_wait [] (List.append_nil _).symm hrun
        (.beforeStep run number last step rest) rfl fun met reply hmet => ?_
      rw [Stage.resume]
      split
      · exact exists_records_abort number last (step :: rest)
      · exact exists_records_send hmet number last step hrest
    · exact exists_records_send hrun number last step hrest

/-- Every run is recorded as the relation says. -/
theorem goes (schedule : Schedule) (run : ScriptRun) (steps : List Step) :
    Goes schedule run steps := by
  induction steps with
  | nil => exact goes_nil
  | cons step rest ih => exact goes_cons step ih

end Recorder

/-! ## What a trace tells -/

/-- What is told of steps that succeed: each is announced, sent, and said to have succeeded. -/
inductive Succeeding (run : ScriptRun) : Nat → List Step → List Event → Prop
  | nil (number : Nat) : Succeeding run number [] []
  | cons {number : Nat} {step : Step} {rest : List Step} {x : Exchange} {events : List Event}
      (hrequest : x.request = .dispatch run.target step.text)
      (hreply : Reply.failure? x.reply = none) (hrest : Succeeding run (number + 1) rest events) :
      Succeeding run number (step :: rest)
        (.told (.stepStarted number run.total step.line step.text) :: .met x ::
          .told (.stepSucceeded number) :: events)

/-- What is told of a run from the given steps on, and its outcome. `last` is the line of the step
before. -/
inductive Narrative (run : ScriptRun) (number : Nat) (last : Option Nat) (steps : List Step) :
    List Event → Outcome → Prop
  /-- All steps succeed. -/
  | completed (events : List Event) {n : Notice} (hevents : Succeeding run number steps events)
      (hlevel : n.level = .success) :
      Narrative run number last steps
        (events ++ [.told (.notice n), .told (.scriptFinished (.completed run.total))])
        (.completed run.total)
  /-- The steps in front of one step succeed, and that one fails with a message. -/
  | failed (before after : List Step) {step : Step} (events : List Event) {x : Exchange}
      {message : List Char} {n : Notice} (hsteps : steps = before ++ step :: after)
      (hevents : Succeeding run number before events)
      (hrequest : x.request = .dispatch run.target step.text)
      (hreply : Reply.failure? x.reply = some message) (hlevel : n.level = .error)
      (hmessage : ∀ elapsed, n.message elapsed = message) :
      Narrative run number last steps
        (events ++ [.told (.stepStarted (number + before.length) run.total step.line step.text),
          .met x, .told (.stepFailed (number + before.length) message), .told (.notice n),
          .told (.scriptFinished (.failed step.line message))]) (.failed step.line message)
  /-- Some steps succeed, and the others are not announced. -/
  | cancelled (before after : List Step) (events : List Event) {n : Notice}
      (hsteps : steps = before ++ after) (hevents : Succeeding run number before events)
      (hlevel : n.level = .warning) :
      Narrative run number last steps
        (events ++ [.told (.notice n),
          .told (.scriptFinished (.cancelled ((before.getLast?.map Step.line).or last)))])
        (.cancelled ((before.getLast?.map Step.line).or last))

/-- A step that succeeds, in front of what is told of the steps behind it. -/
theorem Narrative.cons {run : ScriptRun} {number : Nat} {last : Option Nat} {step : Step}
    {rest : List Step} {x : Exchange} {events : List Event} {outcome : Outcome}
    (hrequest : x.request = .dispatch run.target step.text)
    (hreply : Reply.failure? x.reply = none)
    (h : Narrative run (number + 1) (some step.line) rest events outcome) :
    Narrative run number last (step :: rest)
      (.told (.stepStarted number run.total step.line step.text) :: .met x ::
        .told (.stepSucceeded number) :: events) outcome := by
  cases h with
  | completed events hevents hlevel =>
      exact .completed (_ :: _ :: _ :: events) (.cons hrequest hreply hevents) hlevel
  | failed before after events hsteps hevents hrequest' hreply' hlevel hmessage =>
      have hnumber : number + 1 + before.length = number + (step :: before).length := by
        rw [List.length_cons]
        omega
      rw [hnumber]
      exact .failed (step :: before) after (_ :: _ :: _ :: events) (congrArg (step :: ·) hsteps)
        (.cons hrequest hreply hevents) hrequest' hreply' hlevel hmessage
  | cancelled before after events hsteps hevents hlevel =>
      have hlast : (before.getLast?.map Step.line).or (some step.line) =
          ((step :: before).getLast?.map Step.line).or last := by
        rw [List.getLast?_cons]
        cases before.getLast? <;> rfl
      rw [hlast]
      exact .cancelled (step :: before) after (_ :: _ :: _ :: events) (congrArg (step :: ·) hsteps)
        (.cons hrequest hreply hevents) hlevel

/-- Whenever a step is announced, the next event is the exchange in which it is sent. -/
def SendsAnnounced (target : Target) (trace : List Event) : Prop :=
  ∀ number total line text back, .told (.stepStarted number total line text) :: back <:+ trace →
    ∃ x rest, back = .met x :: rest ∧ x.request = .dispatch target text

theorem sendsAnnounced_nil (target : Target) : SendsAnnounced target [] := by
  intro number total line text back hback
  simp at hback

/-- An event that announces nothing makes no difference. -/
theorem SendsAnnounced.cons {target : Target} {e : Event} {events : List Event}
    (he : e.announces = false) (h : SendsAnnounced target events) :
    SendsAnnounced target (e :: events) := by
  intro number total line text back hback
  rcases List.suffix_cons_iff.1 hback with heq | hsuffix
  · obtain ⟨rfl, -⟩ := List.cons.inj heq
    exact absurd he.symm Bool.false_ne_true
  · exact h number total line text back hsuffix

theorem SendsAnnounced.append {target : Target} {front events : List Event}
    (hfront : ∀ e ∈ front, e.announces = false) (h : SendsAnnounced target events) :
    SendsAnnounced target (front ++ events) := by
  induction front with
  | nil => exact h
  | cons e front ih =>
      rw [List.forall_mem_cons] at hfront
      exact .cons hfront.1 (ih hfront.2)

/-- A step that is announced and sent. -/
theorem SendsAnnounced.announced {target : Target} {number total line : Nat} {text : List Char}
    {x : Exchange} {events : List Event} (hrequest : x.request = .dispatch target text)
    (h : SendsAnnounced target events) :
    SendsAnnounced target (.told (.stepStarted number total line text) :: .met x :: events) := by
  intro number' total' line' text' back hback
  rcases List.suffix_cons_iff.1 hback with heq | hsuffix
  · obtain ⟨hannounced, rfl⟩ := List.cons.inj heq
    obtain ⟨-, -, -, rfl⟩ := Observation.stepStarted.inj (Event.told.inj hannounced)
    exact ⟨x, events, rfl, hrequest⟩
  · exact h.cons (e := .met x) rfl _ _ _ _ _ hsuffix

namespace TracesFrom

variable {calls : Prop} {run : ScriptRun} {number : Nat} {last : Option Nat} {steps : List Step}
  {events : List Event} {outcome : Outcome}

/-- What a run tells of itself. -/
theorem narrative (h : TracesFrom calls run number last steps events outcome) :
    Narrative run number last steps (events.filter Event.isOwn) outcome := by
  induction h with
  | other he hevents ih =>
      rw [List.filter_cons_of_neg (by rw [he.isOwn_eq_false]; exact Bool.false_ne_true)]
      exact ih
  | stopped number last steps =>
      exact .cancelled [] steps [] (n := .aborted) rfl (.nil number) rfl
  | @failed number last step rest x others message hrequest hothers hreply =>
      rw [List.filter_cons_of_pos rfl, List.filter_cons_of_pos (Event.isOwn_of_dispatch hrequest),
        List.filter_append, filter_isOwn_of_other hothers]
      exact .failed [] rest [] (n := .failed message) rfl (.nil number) hrequest hreply rfl
        fun elapsed => rfl
  | @succeeded number last step rest x others events outcome hrequest hothers hreply hrest ih =>
      rw [List.filter_cons_of_pos rfl, List.filter_cons_of_pos (Event.isOwn_of_dispatch hrequest),
        List.filter_append, filter_isOwn_of_other hothers]
      exact ih.cons hrequest hreply
  | completed number last => exact .completed [] (n := .completed) (.nil number) rfl

/-- Steps are sent as soon as they are announced. -/
theorem sendsAnnounced (h : TracesFrom calls run number last steps events outcome) :
    SendsAnnounced run.target events := by
  induction h with
  | other he hevents ih => exact ih.cons he.announces_eq_false
  | stopped number last steps => exact .cons rfl (.cons rfl (sendsAnnounced_nil _))
  | failed number last step rest hrequest hothers hreply =>
      refine .announced hrequest (.append (fun e he => (hothers e he).announces_eq_false) ?_)
      exact .cons rfl (.cons rfl (.cons rfl (sendsAnnounced_nil _)))
  | succeeded number last step rest hrequest hothers hreply hrest ih =>
      refine .announced hrequest (.append (fun e he => (hothers e he).announces_eq_false) ?_)
      exact ih.cons rfl
  | completed number last => exact .cons rfl (.cons rfl (sendsAnnounced_nil _))

/-- All the rest of a trace comes from elsewhere. -/
theorem isOwn_or_other (h : TracesFrom calls run number last steps events outcome) :
    ∀ e ∈ events, e.isOwn = true ∨ e.Other calls := by
  induction h with
  | other he hevents ih => exact List.forall_mem_cons.2 ⟨Or.inr he, ih⟩
  | stopped number last steps => simp [Event.isOwn]
  | failed number last step rest hrequest hothers hreply =>
      simp only [List.forall_mem_cons, List.forall_mem_append]
      exact ⟨Or.inl rfl, Or.inl (Event.isOwn_of_dispatch hrequest),
        fun e he => Or.inr (hothers e he), Or.inl rfl, Or.inl rfl, Or.inl rfl, by simp⟩
  | succeeded number last step rest hrequest hothers hreply hrest ih =>
      simp only [List.forall_mem_cons, List.forall_mem_append]
      exact ⟨Or.inl rfl, Or.inl (Event.isOwn_of_dispatch hrequest),
        fun e he => Or.inr (hothers e he), Or.inl rfl, ih⟩
  | completed number last => simp [Event.isOwn]

end TracesFrom

/-! ## Truthful traces -/

/-- A recorder after a whole run that is launched after some moves, and the outcome. -/
def Stage.Opening.record (o : Stage.Opening) (early : List Move) (schedule : Schedule) :
    Recorder × Option Outcome :=
  (Recorder.start (o.stage.play early).1).follow schedule (o.launch early)

/-- Whether other calls of the engine are made while a run is going on. -/
def Disturbed (early : List Move) (schedule : Schedule) : Prop :=
  (∃ m ∈ early, m.isCall = true) ∨ schedule.HasCalls

/-- What is promised of the trace of a run of the given steps with the given outcome. `stopped` says
whether a request to stop was accepted in front of the run's first look at one. -/
structure Truthful (run : ScriptRun) (steps : List Step) (disturbed : Prop) (stopped : Bool)
    (trace : List Event) (outcome : Outcome) : Prop where
  /-- The number of steps that the observer is told is the number of steps. -/
  total_eq : run.total = steps.length
  /-- What the run tells of itself: that it starts, and then what the narrative says. -/
  narrative : ∃ events,
    trace.filter Event.isOwn = .told (.scriptStarted steps.length) :: events ∧
      Narrative run 1 none steps events outcome
  /-- Nothing comes between the announcement of a step and its sending. -/
  sends_announced : SendsAnnounced run.target trace
  /-- All the rest are refreshes, pauses, and notices that another call was rejected. -/
  own_or_other : ∀ e ∈ trace, e.isOwn = true ∨ e.Other disturbed
  /-- The run is cancelled only if a request to stop was accepted, be it in an exchange. -/
  requested : ∀ last, outcome = .cancelled last →
    stopped = true ∨ ∃ x, .met x ∈ trace ∧ x.stopped = true

/-- What is promised of a call that is rejected: one notice, by which whoever is too early is warned,
and which is an error otherwise. There is no suspension, so that nothing is asked for. -/
structure Refused (s next : Stage) (cause : Rejection) : Prop where
  observed_eq : next.observed = s.observed ++ [.notice (.rejected cause)]
  level_eq : (Notice.rejected cause).level = if cause = .busy then .warning else .error

theorem Stage.TurnedAway.refused {s next : Stage} {cause : Rejection}
    (h : s.TurnedAway next cause) : Refused s next cause :=
  ⟨h.observed_eq, by cases cause <;> rfl⟩

/-- What was told since the start of a run goes in front of the trace of its steps. -/
theorem TracesFrom.truthful {run : ScriptRun} {early : List Move} {schedule : Schedule}
    {steps : List Step} {stopped : Bool} {events : List Event} {outcome : Outcome}
    (htotal : run.total = steps.length)
    (h : TracesFrom schedule.HasCalls run 1 none steps events outcome)
    (hrequested : ∀ last, outcome = .cancelled last →
      stopped = true ∨ ∃ x, .met x ∈ events ∧ x.stopped = true) :
    Truthful run steps (Disturbed early schedule) stopped
      (.told (.scriptStarted steps.length) ::
        ((busyNotices early).map .told ++ events)) outcome := by
  have hothers : ∀ e ∈ (busyNotices early).map .told, Event.Other (Disturbed early schedule) e :=
    other_of_mem_busyNotices fun m hm hcall => Or.inl ⟨m, hm, hcall⟩
  refine ⟨htotal, ⟨events.filter Event.isOwn, ?_, h.narrative⟩, ?_, ?_, fun last hlast => ?_⟩
  · rw [List.filter_cons_of_pos rfl, List.filter_append, filter_isOwn_of_other hothers,
      List.nil_append]
  · exact .cons rfl (.append (fun e he => (hothers e he).announces_eq_false) h.sendsAnnounced)
  · simp only [List.forall_mem_cons, List.forall_mem_append]
    refine ⟨Or.inl rfl, fun e he => Or.inr (hothers e he), fun e he => ?_⟩
    exact (h.isOwn_or_other e he).imp_right (Event.Other.mono Or.inr)
  · refine (hrequested last hlast).imp_right fun ⟨x, hx, hstopped⟩ => ⟨x, ?_, hstopped⟩
    exact List.mem_cons_of_mem _ (List.mem_append_right _ hx)

namespace Stage

variable {s : Stage}

/-- The recorder of a run has the exchanges of the run in its trace. -/
theorem mem_trace_of_mem_log {o : Opening} {early : List Move} {schedule : Schedule} {x : Exchange}
    (h : x ∈ (o.drive early schedule).1.log) : .met x ∈ (o.record early schedule).1.trace := by
  let launched := (Recorder.start (o.stage.play early).1).setStage (o.launch early).1
  have hstart : launched.trace.filterMap Event.exchange? = launched.host.log := by
    rw [Recorder.exchanges_setStage]
    exact Recorder.exchanges_told _
  have hexchanges := Recorder.exchanges_drive schedule launched (o.launch early).2 hstart
  rw [(Recorder.host_drive schedule launched (o.launch early).2).1] at hexchanges
  have hmem : x ∈ (launched.drive schedule (o.launch early).2).1.trace.filterMap Event.exchange? := by
    rw [hexchanges]
    exact h
  obtain ⟨e, he, hx⟩ := List.mem_filterMap.1 hmem
  cases e with
  | told o => cases hx
  | met y =>
      obtain rfl := Option.some.inj hx
      exact he

/-- Every run of a script ends, and its trace is truthful. -/
theorem exists_truthful {ctx : RunContext} {o : Opening} (h : s.opening ctx = .ok o)
    (early : List Move) (schedule : Schedule) :
    ∃ trace outcome,
      (o.record early schedule).1.trace = s.observed.map .told ++ trace ∧
      (o.record early schedule).2 = some outcome ∧
      Truthful o.run (Step.ofScript s.editor.language s.editor.content) (Disturbed early schedule)
        (o.stage.play early).2 trace outcome := by
  obtain ⟨hengine, -, htotal, hsteps⟩ := of_opening h
  obtain ⟨-, hobserved⟩ := stage_opening h
  have hrun : o.stage.engine.running = true := by rw [hengine]
  have hplayed : (o.stage.play early).1.engine.running = true := by
    rw [engine_play hrun]
    exact hrun
  obtain ⟨events, outcome, ⟨htrace, houtcome⟩, htraces⟩ :=
    Recorder.goes schedule o.run o.steps (Recorder.start (o.stage.play early).1) 1 none hplayed
  have hsplit : (o.record early schedule).1.trace =
      (s.observed ++ .scriptStarted o.steps.length :: busyNotices early).map .told ++ events := by
    refine htrace.trans ?_
    show (o.stage.play early).1.observed.map .told ++ events = _
    rw [observed_play hrun, hobserved, htotal]
    simp
  -- the log of the run says whether it was asked to stop
  have hrequested : ∀ last, outcome = .cancelled last →
      (o.stage.play early).2 = true ∨ ∃ x, .met x ∈ events ∧ x.stopped = true := by
    rintro last rfl
    obtain ⟨outcome', houtcome', hruns⟩ := exists_runsFrom h early schedule
    have hsame : some outcome' = some (Outcome.cancelled last) :=
      houtcome'.symm.trans ((Recorder.host_drive schedule _ _).2.symm.trans houtcome)
    obtain rfl := Option.some.inj hsame
    refine hruns.requested.imp_right fun ⟨x, hx, hstopped⟩ => ⟨x, ?_, hstopped⟩
    have hmem := mem_trace_of_mem_log hx
    rw [hsplit, List.mem_append] at hmem
    exact hmem.resolve_left (by simp)
  rw [← hsteps]
  refine ⟨_, outcome, hsplit.trans ?_, houtcome, htraces.truthful htotal hrequested⟩
  simp

/-- **Truthful traces.** A run of a script that is accepted, on every schedule and after every moves
in front of its first look at a request to stop, ends, and the trace of what its observer is told and
of what is asked for is truthful with the outcome that is returned. A call that is rejected, of a
script or of a line, leaves one notice and asks for nothing. -/
theorem truthful_run (s : Stage) (ctx : RunContext) :
    (∀ next progress, s.runScript ctx = (next, .ok progress) →
      ∃ o, s.opening ctx = .ok o ∧ o.launch [] = (next, progress) ∧ ctx.target = .ok o.run.target ∧
        ∀ (early : List Move) (schedule : Schedule),
          (o.record early schedule).1.host = (o.drive early schedule).1 ∧
          ∃ trace outcome,
            (o.record early schedule).1.trace = s.observed.map .told ++ trace ∧
            (o.record early schedule).2 = some outcome ∧
            (o.drive early schedule).2 = some outcome ∧
            Truthful o.run (Step.ofScript s.editor.language s.editor.content)
              (Disturbed early schedule) (o.stage.play early).2 trace outcome) ∧
    (∀ next cause, s.runScript ctx = (next, .error cause) → Refused s next cause) ∧
    ∀ line text next cause, s.runLine ctx line text = (next, .error cause) →
      Refused s next cause := by
  refine ⟨fun next progress h => ?_, fun next cause h => (turnedAway_runScript h).refused,
    fun line text next cause h => (turnedAway_runLine h).refused⟩
  obtain ⟨o, hopening, hlaunch⟩ := runScript_eq_ok.1 h
  obtain ⟨-, htarget, -, -⟩ := of_opening hopening
  refine ⟨o, hopening, hlaunch, htarget, fun early schedule => ?_⟩
  -- the run that is recorded is the run that is driven without a recorder
  obtain ⟨hhost, hsame⟩ := Recorder.host_drive schedule
    ((Recorder.start (o.stage.play early).1).setStage (o.launch early).1) (o.launch early).2
  obtain ⟨trace, outcome, htrace, houtcome, htruthful⟩ := exists_truthful hopening early schedule
  exact ⟨hhost, trace, outcome, htrace, houtcome, hsame.symm.trans houtcome, htruthful⟩

/-- A run of two steps, during which another run is asked for and rejected at every request. -/
theorem truthful_run_two_steps :
    let text := "步骤:\n点击 [\x7ba\x7d]\n  等待 [500]".toList
    let buffer := Buffer.create .standard "a.tks".toList text
    let s : Stage := ⟨.ofBuffer .standard buffer, .idle .standard, []⟩
    let ctx : RunContext := ⟨some "dev".toList, some "/p".toList⟩
    let schedule : Schedule := fun _ => ⟨[.runScript ctx, .cancel], .success, .success⟩
    ∃ o trace outcome, s.opening ctx = .ok o ∧ (o.record [] schedule).2 = some outcome ∧
      Truthful o.run (Step.ofScript s.editor.language s.editor.content) (Disturbed [] schedule)
        false trace outcome ∧
      Refused s (s.runScript ⟨none, none⟩).1 .missingDevice ∧
      Refused s (s.runLine ctx 1 " ".toList).1 .emptyLine := by
  intro text buffer s ctx schedule
  have haccepted : s.runScript ctx = ((s.runScript ctx).1, .ok (.suspended
      (.beforeStep ⟨⟨"dev".toList, "/p".toList⟩, 2⟩ 1 none ⟨2, "点击 [\x7ba\x7d]".toList⟩
        [⟨3, "等待 [500]".toList⟩]))) := Prod.ext rfl rfl
  have hrejected : s.runScript ⟨none, none⟩ =
      ((s.runScript ⟨none, none⟩).1, .error .missingDevice) := Prod.ext rfl rfl
  have hblank : s.runLine ctx 1 " ".toList =
      ((s.runLine ctx 1 " ".toList).1, .error .emptyLine) := Prod.ext rfl rfl
  obtain ⟨o, hopening, -, -, hruns⟩ := (truthful_run s ctx).1 _ _ haccepted
  obtain ⟨-, trace, outcome, -, houtcome, -, htruthful⟩ := hruns [] schedule
  exact ⟨o, trace, outcome, hopening, houtcome, htruthful,
    (truthful_run s ⟨none, none⟩).2.1 _ _ hrejected, (truthful_run s ctx).2.2 _ _ _ _ hblank⟩

end Stage

end StepScript
