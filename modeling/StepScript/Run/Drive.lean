import StepScript.Run.Engine

/-!
# Driving a run

A run is driven through its suspensions by meeting one request after another. What meets them may do
anything to the state around the run, the stage included.
-/

set_option autoImplicit false

namespace StepScript

/-- What is around a run: states that hold a stage, and how requests are met in them. -/
structure Surroundings (σ : Type) where
  stage : σ → Stage
  setStage : Stage → σ → σ
  /-- The state in which a request is met, and the reply; a request may be left without one for
  ever. -/
  meet : Request → σ → σ × Option Reply

/-- A bound on the number of turns to come. -/
def Progress.budget : Progress → Nat
  | .finished _ => 0
  | .suspended point => point.budget + 1

theorem Progress.budget_resume (s : Stage) (reply : Reply) (point : Suspension) :
    (s.resume reply point).2.budget < point.budget + 1 := by
  cases h : s.resume reply point with
  | mk next progress =>
    cases progress with
    | finished outcome => exact Nat.succ_pos _
    | suspended later => exact Nat.succ_lt_succ (Stage.budget_resume h)

namespace Surroundings

variable {σ : Type} (w : Surroundings σ)

/-- The state after a run, and its outcome. A run that waits for ever is given up, and has none. -/
def drive (state : σ) (progress : Progress) : σ × Option Outcome :=
  match progress with
  | .finished outcome => (state, some outcome)
  | .suspended point =>
    match w.meet (point.request (w.stage state).engine.options) state with
    | (state, none) => (w.setStage ((w.stage state).abandon point) state, none)
    | (state, some reply) =>
      have := Progress.budget_resume (w.stage state) reply point
      drive (w.setStage ((w.stage state).resume reply point).1 state)
        ((w.stage state).resume reply point).2
termination_by progress.budget

end Surroundings

end StepScript
