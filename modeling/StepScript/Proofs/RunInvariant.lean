import StepScript.Proofs.EditorActions
import StepScript.Proofs.Schedule

/-!
# What holds throughout a run

A run **passes** a stage if the stage is met while the run waits for a reply, between any two moves.
An **invariant** of runs says what holds of the stages that are passed at each suspension, and of the
stage at the end; it is enough that every move keeps it and that every turn leads from it to it.

Main statements:

* `Stage.editor_move`, `Stage.observed_move` — what a move does while a run is going on;
* `RunInvariant.relative` — an invariant may rest on another one;
* `RunInvariant.passes` — an invariant holds of every stage that is passed;
* `RunInvariant.drive` — a run ends, and the invariant holds of the end.
-/

set_option autoImplicit false

namespace StepScript

/-! ## Moves -/

/-- A move in which nothing is done to the editor but allowed actions. -/
def Move.Within (allowed : EditorAction → Prop) : Move → Prop
  | .touch f => ∃ a, allowed a ∧ f = fun e => e.act a
  | _ => True

theorem Move.Within.mono {allowed allowed' : EditorAction → Prop} (h : ∀ a, allowed a → allowed' a)
    {m : Move} (hm : m.Within allowed) : m.Within allowed' := by
  cases m with
  | touch f =>
      obtain ⟨a, ha, hf⟩ := hm
      exact ⟨a, h a ha, hf⟩
  | cancel => exact trivial
  | runScript ctx => exact trivial
  | runLine ctx line text => exact trivial

/-- A schedule in which nothing is done to the editor but allowed actions. -/
def Schedule.Within (allowed : EditorAction → Prop) (schedule : Schedule) : Prop :=
  ∀ n, ∀ m ∈ (schedule n).moves, m.Within allowed

namespace Stage

/-- What a move does to the editor while a run is going on: nothing, or one action. -/
theorem editor_move {s : Stage} (h : s.engine.running = true) {allowed : EditorAction → Prop}
    {m : Move} (hm : m.Within allowed) :
    (s.move m).1.editor = s.editor ∨ ∃ a, allowed a ∧ (s.move m).1.editor = s.editor.act a := by
  cases m with
  | cancel => exact Or.inl rfl
  | touch f =>
      obtain ⟨a, ha, rfl⟩ := hm
      exact Or.inr ⟨a, ha, rfl⟩
  | runScript ctx => exact Or.inl (by simp [move, runScript, begin_of_running h, reject, observe])
  | runLine ctx line text =>
      exact Or.inl (by simp [move, runLine, begin_of_running h, reject, observe])

/-- What the observer is told in a move while a run is going on: nothing, or that a run was
rejected. -/
theorem observed_move {s : Stage} (h : s.engine.running = true) (m : Move) :
    (s.move m).1.observed = s.observed ∨
      (s.move m).1.observed = s.observed ++ [.notice (.rejected .busy)] := by
  cases m with
  | cancel => exact Or.inl rfl
  | touch f => exact Or.inl rfl
  | runScript ctx => exact Or.inr (by simp [move, runScript, begin_of_running h, reject, observe])
  | runLine ctx line text =>
      exact Or.inr (by simp [move, runLine, begin_of_running h, reject, observe])

/-- A move does not end a run. -/
theorem running_move {s : Stage} (h : s.engine.running = true) (m : Move) :
    (s.move m).1.engine.running = true := by
  rw [engine_move h m]
  exact h

/-- What every move keeps is kept by some moves one after the other. -/
theorem play_of_move {p : Stage → Prop} {allowed : Move → Prop}
    (hmove : ∀ s m, allowed m → p s → p (s.move m).1) {s : Stage} {moves : List Move}
    (hmoves : ∀ m ∈ moves, allowed m) (h : p s) : p (s.play moves).1 := by
  induction moves generalizing s with
  | nil => exact h
  | cons m moves ih =>
      rw [List.forall_mem_cons] at hmoves
      exact ih hmoves.2 (hmove s m hmoves.1 h)

end Stage

/-! ## Passing stages -/

/-- While a run with the given progress goes on from a host, a stage is met at a suspension. -/
inductive Host.Passes (schedule : Schedule) : Host → Progress → Suspension → Stage → Prop
  /-- The run waits, and some of the moves that happen meanwhile have happened. -/
  | here {h : Host} (point : Suspension) {before after : List Move}
      (hmoves : (schedule h.log.length).moves = before ++ after) :
      Host.Passes schedule h (.suspended point) point (h.stage.play before).1
  /-- The stage is met after the next exchange. -/
  | later {h : Host} {point point' : Suspension} {s : Stage}
      (hlater : Host.Passes schedule (h.turn schedule point).1 (h.turn schedule point).2 point' s) :
      Host.Passes schedule h (.suspended point) point' s

/-! ## Invariants -/

/-- What holds after a turn, where `waits` is said of suspended runs and `ended` of runs that are
over. -/
def HoldsAfter (waits : Suspension → Stage → Prop) (ended : Outcome → Stage → Prop) :
    Stage × Progress → Prop
  | (s, .suspended point) => waits point s
  | (s, .finished outcome) => ended outcome s

theorem HoldsAfter.and {waits waits' : Suspension → Stage → Prop}
    {ended ended' : Outcome → Stage → Prop} {t : Stage × Progress} (h : HoldsAfter waits ended t)
    (h' : HoldsAfter waits' ended' t) :
    HoldsAfter (fun point s => waits point s ∧ waits' point s)
      (fun outcome s => ended outcome s ∧ ended' outcome s) t := by
  obtain ⟨s, progress⟩ := t
  cases progress with
  | suspended point => exact ⟨h, h'⟩
  | finished outcome => exact ⟨h, h'⟩

/-- An **invariant** of runs: `waits` is kept by the allowed moves, and every turn leads from it to
it, or to `ended`. -/
structure RunInvariant (allowed : Move → Prop) (waits : Suspension → Stage → Prop)
    (ended : Outcome → Stage → Prop) : Prop where
  move : ∀ point s m, allowed m → waits point s → waits point (s.move m).1
  resume : ∀ point s reply, waits point s → HoldsAfter waits ended (s.resume reply point)

namespace RunInvariant

variable {allowed : Move → Prop} {waits : Suspension → Stage → Prop}
  {ended : Outcome → Stage → Prop} {schedule : Schedule}

/-- What is kept as long as an invariant holds is an invariant together with it. -/
theorem relative (h : RunInvariant allowed waits ended) {allowed' : Move → Prop}
    {waits' : Suspension → Stage → Prop} {ended' : Outcome → Stage → Prop}
    (hallowed : ∀ m, allowed' m → allowed m)
    (hmove : ∀ point s m, allowed' m → waits point s → waits' point s →
      waits' point (s.move m).1)
    (hresume : ∀ point s reply, waits point s → waits' point s →
      HoldsAfter waits' ended' (s.resume reply point)) :
    RunInvariant allowed' (fun point s => waits point s ∧ waits' point s)
      (fun outcome s => ended outcome s ∧ ended' outcome s) where
  move := fun point s m hm ⟨hw, hw'⟩ =>
    ⟨h.move point s m (hallowed m hm) hw, hmove point s m hm hw hw'⟩
  resume := fun point s reply ⟨hw, hw'⟩ =>
    (h.resume point s reply hw).and (hresume point s reply hw hw')

/-- One exchange leads from an invariant to it. -/
theorem turn (h : RunInvariant allowed waits ended)
    (hschedule : ∀ n, ∀ m ∈ (schedule n).moves, allowed m) {host : Host} {point : Suspension}
    (hwaits : waits point host.stage) :
    HoldsAfter waits ended ((host.turn schedule point).1.stage, (host.turn schedule point).2) :=
  h.resume point _ _ (Stage.play_of_move (h.move point) (hschedule _) hwaits)

/-- An invariant holds of every stage that a run passes. -/
theorem passes (h : RunInvariant allowed waits ended)
    (hschedule : ∀ n, ∀ m ∈ (schedule n).moves, allowed m) {host : Host} {progress : Progress}
    {point : Suspension} {s : Stage} (hpasses : Host.Passes schedule host progress point s)
    (hstart : HoldsAfter waits ended (host.stage, progress)) : waits point s := by
  induction hpasses with
  | @here host point before after hmoves =>
      refine Stage.play_of_move (h.move point) (fun m hm => hschedule host.log.length m ?_) hstart
      rw [hmoves]
      exact List.mem_append_left _ hm
  | later _ ih => exact ih (h.turn hschedule hstart)

/-- A run ends, and what is said of ends holds there. -/
theorem drive (h : RunInvariant allowed waits ended)
    (hschedule : ∀ n, ∀ m ∈ (schedule n).moves, allowed m) (host : Host) {progress : Progress}
    (hstart : HoldsAfter waits ended (host.stage, progress)) :
    ∃ outcome, (host.drive schedule progress).2 = some outcome ∧
      ended outcome (host.drive schedule progress).1.stage := by
  -- the induction is on the number of replies that the run still takes
  induction hn : progress.budget using Nat.strongRecOn generalizing host progress with
  | _ n ih =>
      cases progress with
      | finished outcome =>
          rw [Host.drive_finished]
          exact ⟨outcome, rfl, hstart⟩
      | suspended point =>
          rw [Host.drive_suspended]
          refine ih _ ?_ _ (h.turn hschedule hstart) rfl
          rw [← hn]
          exact Progress.budget_resume _ _ _

end RunInvariant

end StepScript
