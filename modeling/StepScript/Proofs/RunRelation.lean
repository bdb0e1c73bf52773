import StepScript.Proofs.Schedule

/-!
# How a run goes

The exchanges and the outcome of a run are described by a relation that follows the steps. On every
schedule, a run ends, and goes as the relation says.

Main statements:

* `RunsFrom.requested` — a run is given up only if it was asked to stop;
* `Host.goes`, `Stage.exists_runsFrom` — every run goes as the relation says.
-/

set_option autoImplicit false

namespace StepScript

/-! ## The relation -/

/-- Refreshes during which nobody asked to stop. -/
def Quiet (log : List Exchange) : Prop :=
  ∀ x ∈ log, x.request = .refresh ∧ x.stopped = false

/-- The exchanges and the outcome of a run that stands in front of the given steps, where `stopping`
says whether it was asked to stop and `last` is the line of the step before. -/
inductive RunsFrom (run : ScriptRun) :
    Bool → Option Nat → List Step → List Exchange → Outcome → Prop
  /-- The run finds that it was asked to stop. -/
  | stopped (last : Option Nat) (steps : List Step) :
      RunsFrom run true last steps [] (.cancelled last)
  /-- The run was asked to stop during the refresh in front of a step. -/
  | refreshed (last : Option Nat) (step : Step) (rest : List Step) {x : Exchange}
      (hrequest : x.request = .refresh) (hstopped : x.stopped = true) :
      RunsFrom run false last (step :: rest) [x] (.cancelled last)
  /-- A step fails. -/
  | failed (last : Option Nat) (step : Step) (rest : List Step) {quiet : List Exchange}
      {x : Exchange} {message : List Char} (hquiet : Quiet quiet)
      (hrequest : x.request = .dispatch run.target step.text)
      (hreply : Reply.failure? x.reply = some message) :
      RunsFrom run false last (step :: rest) (quiet ++ [x]) (.failed step.line message)
  /-- A step succeeds, and the run goes on after the pause. -/
  | succeeded (last : Option Nat) (step : Step) (rest : List Step) {quiet log : List Exchange}
      {x y : Exchange} {outcome : Outcome} (hquiet : Quiet quiet)
      (hrequest : x.request = .dispatch run.target step.text)
      (hreply : Reply.failure? x.reply = none) (hpause : y.request.isPause = true)
      (hrest : RunsFrom run (x.stopped || y.stopped) (some step.line) rest log outcome) :
      RunsFrom run false last (step :: rest) (quiet ++ x :: y :: log) outcome
  /-- There are no more steps. -/
  | completed (last : Option Nat) {log : List Exchange} (hlog : ∀ x ∈ log, x.request = .refresh) :
      RunsFrom run false last [] log (.completed run.total)

/-- A run is given up only if a request to stop was accepted. -/
theorem RunsFrom.requested {run : ScriptRun} {stopping : Bool} {last last' : Option Nat}
    {steps : List Step} {log : List Exchange}
    (h : RunsFrom run stopping last steps log (.cancelled last')) :
    stopping = true ∨ ∃ x ∈ log, x.stopped = true := by
  generalize houtcome : Outcome.cancelled last' = outcome at h
  induction h with
  | stopped last steps => exact Or.inl rfl
  | refreshed last step rest hrequest hstopped =>
      exact Or.inr ⟨_, List.mem_singleton_self _, hstopped⟩
  | failed last step rest hquiet hrequest hreply => cases houtcome
  | @succeeded last step rest quiet log x y outcome hquiet hrequest hreply hpause hrest ih =>
      -- in the step itself, or behind it
      right
      rcases ih houtcome with hstep | ⟨z, hz, hstopped⟩
      · rcases Bool.or_eq_true_iff.1 hstep with hx | hy
        · exact ⟨x, by simp, hx⟩
        · exact ⟨y, by simp, hy⟩
      · exact ⟨z, by simp [hz], hstopped⟩
  | completed last hlog => cases houtcome

/-! ## Turns -/

namespace Host

variable {schedule : Schedule} {run : ScriptRun}

/-- The end of a run, seen from the turn that starts at a stage. -/
def EndsTurn (schedule : Schedule) (log : List Exchange) (t : Stage × Progress)
    (more : List Exchange) (outcome : Outcome) : Prop :=
  Host.Ends schedule ⟨t.1, log⟩ t.2 more outcome

theorem endsTurn_finished (s : Stage) (log : List Exchange) (outcome : Outcome) :
    EndsTurn schedule log (s, .finished outcome) [] outcome :=
  ends_finished outcome

/-- Runs of the given steps go as the relation says, from every stage that runs. -/
def Goes (schedule : Schedule) (run : ScriptRun) (steps : List Step) : Prop :=
  ∀ (s : Stage) (log : List Exchange) (number : Nat) (last : Option Nat),
    s.engine.running = true → ∃ more outcome,
      EndsTurn schedule log (s.proceed run number last steps) more outcome ∧
        RunsFrom run s.engine.stopping last steps more outcome

variable (schedule)

/-- One exchange of a run: the run goes on from a stage whose engine only differs in that it may
have been asked to stop. -/
theorem exists_exchange {s : Stage} (hrun : s.engine.running = true) (log : List Exchange)
    (point : Suspension) :
    ∃ (x : Exchange) (met : Stage),
      x.request = point.request s.engine.options ∧
      met.engine = { s.engine with stopping := s.engine.stopping || x.stopped } ∧
      ∀ more outcome, EndsTurn schedule (log ++ [x]) (met.resume x.reply point) more outcome →
        EndsTurn schedule log (s, .suspended point) (x :: more) outcome := by
  let h : Host := ⟨s, log⟩
  let request := point.request s.engine.options
  refine ⟨h.exchange schedule request, (h.afterExchange schedule request).stage, rfl, ?_, ?_⟩
  · exact engine_afterExchange hrun request
  · intro more outcome hends
    exact ends_suspended hends

variable {schedule}

/-- A run that was asked to stop ends at the loop. -/
theorem exists_endsTurn_stopped {s : Stage} (hstop : s.engine.stopping = true) (steps : List Step)
    (log : List Exchange) (number : Nat) (last : Option Nat) :
    ∃ more outcome, EndsTurn schedule log (s.proceed run number last steps) more outcome ∧
      RunsFrom run s.engine.stopping last steps more outcome := by
  have hturn : s.proceed run number last steps = s.abort last := by
    cases steps <;> rw [Stage.proceed, if_pos hstop]
  rw [hturn, hstop]
  exact ⟨[], _, endsTurn_finished _ _ _, .stopped last steps⟩

/-- A run from the sending of a step on. -/
theorem exists_endsTurn_send {s : Stage} (hrun : s.engine.running = true)
    (hgo : s.engine.stopping = false) (number : Nat) (last : Option Nat) (step : Step)
    {rest : List Step} (hrest : Goes schedule run rest) {quiet : List Exchange}
    (hquiet : Quiet quiet) (log : List Exchange) :
    ∃ more outcome, EndsTurn schedule log (s.send run number step rest) more outcome ∧
      RunsFrom run false last (step :: rest) (quiet ++ more) outcome := by
  let sent : Stage := (s.send run number step rest).1
  have hsent : sent.engine = s.engine := rfl
  obtain ⟨x, met, hx, hmet, hends⟩ :=
    exists_exchange schedule (s := sent) hrun log (.atStep run number step rest)
  cases hreply : Reply.failure? x.reply with
  | some message =>
      have hfail : met.resume x.reply (.atStep run number step rest) =
          met.fail number step message := by
        rw [Stage.resume, hreply]
      refine ⟨[x], .failed step.line message, hends _ _ ?_, .failed last step rest hquiet hx hreply⟩
      rw [hfail]
      exact endsTurn_finished _ _ _
  | none =>
      have hgoes : met.resume x.reply (.atStep run number step rest) =
          (met.observe (.stepSucceeded number), .suspended (.afterStep run number step rest)) := by
        rw [Stage.resume, hreply]
      have hmetrun : (met.observe (.stepSucceeded number)).engine.running = true := by
        show met.engine.running = true
        rw [hmet]
        exact hrun
      obtain ⟨y, paused, hy, hpaused, hends'⟩ :=
        exists_exchange schedule hmetrun (log ++ [x]) (.afterStep run number step rest)
      have hpausedrun : paused.engine.running = true := by
        rw [hpaused]
        exact hmetrun
      -- the next look at the request to stop comes after both exchanges
      have hstopping : paused.engine.stopping = (x.stopped || y.stopped) := by
        rw [hpaused]
        show (met.engine.stopping || y.stopped) = _
        rw [hmet]
        show ((sent.engine.stopping || x.stopped) || y.stopped) = _
        rw [hsent, hgo, Bool.false_or]
      obtain ⟨more, outcome, hmore, hruns⟩ :=
        hrest paused (log ++ [x] ++ [y]) (number + 1) (some step.line) hpausedrun
      rw [hstopping] at hruns
      refine ⟨x :: y :: more, outcome, hends _ _ ?_, ?_⟩
      · rw [hgoes]
        exact hends' _ _ hmore
      · exact .succeeded last step rest hquiet hx hreply (by rw [hy]; rfl) hruns

/-- A run from the loop on, where no step is left. -/
theorem goes_nil : Goes schedule run [] := by
  intro s log number last hrun
  cases hstop : s.engine.stopping with
  | true => exact hstop ▸ exists_endsTurn_stopped hstop [] log number last
  | false =>
      cases hrefresh : s.engine.options.refreshAfter with
      | true =>
          have hturn : s.proceed run number last [] = (s, .suspended (.afterScript run)) := by
            simp [Stage.proceed, hstop, hrefresh]
          obtain ⟨x, met, hx, -, hends⟩ := exists_exchange schedule hrun log (.afterScript run)
          rw [hturn]
          refine ⟨[x], .completed run.total, hends _ _ (endsTurn_finished _ _ _),
            .completed last fun y hy => ?_⟩
          obtain rfl := List.mem_singleton.1 hy
          exact hx
      | false =>
          have hturn : s.proceed run number last [] = s.complete run := by
            simp [Stage.proceed, hstop, hrefresh]
          rw [hturn]
          exact ⟨[], _, endsTurn_finished _ _ _, .completed last (by simp)⟩

/-- A run from the loop on, where a step is next: the refresh in front of it comes first. -/
theorem goes_cons (step : Step) {rest : List Step} (hrest : Goes schedule run rest) :
    Goes schedule run (step :: rest) := by
  intro s log number last hrun
  cases hstop : s.engine.stopping with
  | true => exact hstop ▸ exists_endsTurn_stopped hstop (step :: rest) log number last
  | false =>
      cases hrefresh : s.engine.options.refreshBefore with
      | true =>
          have hturn : s.proceed run number last (step :: rest) =
              (s, .suspended (.beforeStep run number last step rest)) := by
            simp [Stage.proceed, hstop, hrefresh]
          obtain ⟨x, met, hx, hmet, hends⟩ :=
            exists_exchange schedule hrun log (.beforeStep run number last step rest)
          have hmetstop : met.engine.stopping = x.stopped := by
            rw [hmet]
            show (s.engine.stopping || x.stopped) = x.stopped
            rw [hstop, Bool.false_or]
          rw [hturn]
          cases hx' : x.stopped with
          | true =>
              have habort : met.resume x.reply (.beforeStep run number last step rest) =
                  met.abort last := by
                rw [Stage.resume, hmetstop, hx', if_pos rfl]
              refine ⟨[x], .cancelled last, hends _ _ ?_, .refreshed last step rest hx hx'⟩
              rw [habort]
              exact endsTurn_finished _ _ _
          | false =>
              have hsend : met.resume x.reply (.beforeStep run number last step rest) =
                  met.send run number step rest := by
                rw [Stage.resume, hmetstop, hx']
                rfl
              have hmetrun : met.engine.running = true := by
                rw [hmet]
                exact hrun
              have hquiet : Quiet [x] := by
                intro y hy
                obtain rfl := List.mem_singleton.1 hy
                exact ⟨hx, hx'⟩
              obtain ⟨more, outcome, hmore, hruns⟩ := exists_endsTurn_send hmetrun
                (hmetstop.trans hx') number last step hrest hquiet (log ++ [x])
              refine ⟨x :: more, outcome, hends _ _ ?_, hruns⟩
              rw [hsend]
              exact hmore
      | false =>
          have hturn : s.proceed run number last (step :: rest) = s.send run number step rest := by
            simp [Stage.proceed, hstop, hrefresh]
          have hquiet : Quiet [] := fun x hx => absurd hx List.not_mem_nil
          rw [hturn]
          exact exists_endsTurn_send hrun hstop number last step hrest hquiet log

/-- Every run goes as the relation says. -/
theorem goes (schedule : Schedule) (run : ScriptRun) (steps : List Step) :
    Goes schedule run steps := by
  induction steps with
  | nil => exact goes_nil
  | cons step rest ih => exact goes_cons step ih

end Host

/-- A run that is accepted ends, and goes as the relation says from its first step on. -/
theorem Stage.exists_runsFrom {s : Stage} {ctx : RunContext} {o : Opening}
    (h : s.opening ctx = .ok o) (early : List Move) (schedule : Schedule) :
    ∃ outcome, (o.drive early schedule).2 = some outcome ∧
      RunsFrom o.run (o.stage.play early).2 none o.steps (o.drive early schedule).1.log outcome := by
  obtain ⟨hengine, -, -, -⟩ := of_opening h
  have hrunning : o.stage.engine.running = true := by rw [hengine]
  have hplay := engine_play hrunning early
  have hlaunched : (o.stage.play early).1.engine.running = true := by
    rw [hplay]
    exact hrunning
  have hstopping : (o.stage.play early).1.engine.stopping = (o.stage.play early).2 := by
    rw [hplay]
    show (o.stage.engine.stopping || (o.stage.play early).2) = (o.stage.play early).2
    rw [hengine, Bool.false_or]
  obtain ⟨log, outcome, ⟨hlog, houtcome⟩, hruns⟩ :=
    Host.goes schedule o.run o.steps (o.stage.play early).1 [] 1 none hlaunched
  have hdrive : (o.drive early schedule).1.log = log := hlog
  rw [hstopping, ← hdrive] at hruns
  exact ⟨outcome, houtcome, hruns⟩

end StepScript
