import StepScript.Shell.Evaluate

/-!
# Processes of their own

A shell leaves subshells, pipelines, commands in the background and commands in words to processes
of their own. Whatever these run, the shell that waits for them is the same afterwards: its
variables, functions, options, folder, channels and actions for signals are what they were. It only
knows which jobs there are, which signals arrived, where programs were found, how a command in a word
ended and what time it is.

`Act.Isolated` says this of a step, and that nothing stops the step but a signal for the shell or the
bound of all runs; a fault or an exit inside of the process stays there. It holds of every part of a
step, so it is put together along the step.

Main statements:

* `inChild_eq_ok` — what a process of its own leaves behind;
* `isolated_capture`, `isolated_dispatch` — every command of these kinds is isolated, whatever it
  runs;
* `own_evaluate` — so is its run by the shell, where no actions for signals are set.
-/

set_option autoImplicit false

namespace StepScript.Shell

/-! ## What belongs to a shell -/

/-- A state without what a shell learns from processes of its own. -/
def State.own (s : State) : State :=
  { s with
    line := 0
    clock := 0
    jobs := []
    lastJob := none
    arrived := []
    found := []
    foundElsewhere := []
    status := 0
    outputStatus := 0 }

/-- Whether a stop comes from outside of a step. -/
def Stop.FromOutside : Stop → Prop
  | .signal _ | .bound => True
  | _ => False

namespace Act

variable {α β : Type}

/-- A step leaves a shell what belongs to it, and only what comes from outside stops it. -/
structure Isolated (act : Act α) : Prop where
  own_eq {m m' : Machine} {a : α} : act m = .ok a m' → m'.shell.own = m.shell.own
  fromOutside {m m' : Machine} {stop : Stop} : act m = .error stop m' → stop.FromOutside

theorem isolated_pure (a : α) : Isolated (pure a) where
  own_eq h := by cases h; rfl
  fromOutside h := by cases h

theorem Isolated.bind {x : Act α} {f : α → Act β} (hx : Isolated x) (hf : ∀ a, Isolated (f a)) :
    Isolated (x >>= f) where
  own_eq h := by
    obtain ⟨a, m₁, h₁, h₂⟩ := bind_eq_ok.1 h
    exact ((hf a).own_eq h₂).trans (hx.own_eq h₁)
  fromOutside h := by
    obtain h | ⟨a, m₁, -, h₂⟩ := bind_eq_error.1 h
    · exact hx.fromOutside h
    · exact (hf a).fromOutside h₂

theorem isolated_shell : Isolated shell where
  own_eq h := by cases h; rfl
  fromOutside h := by cases h

theorem isolated_get : Isolated (get : Act Machine) where
  own_eq h := by cases h; rfl
  fromOutside h := by cases h

theorem isolated_change {f : State → State} (h : ∀ s, (f s).own = s.own := by intro; rfl) :
    Isolated (change f) where
  own_eq h' := by cases h'; exact h _
  fromOutside h' := by cases h'

theorem isolated_modifyGet {f : Machine → α × Machine} (h : ∀ m, (f m).2.shell.own = m.shell.own) :
    Isolated (modifyGet f) where
  own_eq h' := by cases h'; exact h _
  fromOutside h' := by cases h'

theorem isolated_throw_signal (n : Nat) : Isolated (throw (.signal n) : Act α) where
  own_eq h := by cases h
  fromOutside h := by cases h; trivial

theorem isolated_forM {l : List β} {f : β → Act Unit} (h : ∀ b, Isolated (f b)) :
    Isolated (l.forM f) := by
  induction l with
  | nil => exact isolated_pure _
  | cons b l ih => exact (h b).bind fun _ => ih

theorem isolated_forIn {l : List β} {f : β → α → Act (ForInStep α)} (h : ∀ b a, Isolated (f b a))
    (a : α) : Isolated (forIn l a f) := by
  induction l generalizing a with
  | nil => exact isolated_pure _
  | cons b l ih =>
    rw [List.forIn_cons]
    refine (h b a).bind fun next => ?_
    cases next with
    | done a => exact isolated_pure _
    | yield a => exact ih a

/-! ### Processes -/

/-- A step that tells how a process ended, where the status of an exit has eight bits. -/
structure ExitsInByte (act : Act Ending) : Prop where
  exited_lt {m m' : Machine} {status : Nat} : act m = .ok (.exited status) m' → status < 256

/-- Besides, only the bound of all runs stops the step. -/
structure Settles (act : Act Ending) : Prop extends ExitsInByte act where
  eq_bound {m m' : Machine} {stop : Stop} : act m = .error stop m' → stop = .bound

theorem settles_ofStatus (status : Nat) : Settles (pure (.ofStatus status)) where
  exited_lt h := by cases h; exact Nat.mod_lt _ (by decide)
  eq_bound h := by cases h

theorem settles_killed (n : Nat) : Settles (pure (.killed n)) where
  exited_lt h := by cases h
  eq_bound h := by cases h

theorem settles_throw_bound : Settles (throw .bound) where
  exited_lt h := by cases h
  eq_bound h := by cases h; rfl

theorem Settles.of_bind {x : Act α} {f : α → Act Ending} (hx : ∀ m m' stop, x m ≠ .error stop m')
    (hf : ∀ a, Settles (f a)) : Settles (x >>= f) where
  exited_lt h := by
    obtain ⟨a, m₁, -, h⟩ := bind_eq_ok.1 h
    exact (hf a).exited_lt h
  eq_bound h := by
    obtain h | ⟨a, m₁, -, h⟩ := bind_eq_error.1 h
    · exact absurd h (hx _ _ _)
    · exact (hf a).eq_bound h

theorem Settles.of_shell {f : State → Act Ending} (hf : ∀ s, Settles (f s)) : Settles (shell >>= f) :=
  .of_bind (fun _ _ _ h => by cases h) hf

theorem Settles.of_change {f : State → State} {act : Act Ending} (h : Settles act) :
    Settles (change f >>= fun _ => act) :=
  .of_bind (fun _ _ _ h => by cases h) fun _ => h

theorem settles_runEndAction (run : Runner) : Settles (runEndAction run) := by
  refine .of_shell fun status => .of_shell fun s => ?_
  split
  · exact settles_ofStatus _
  refine .of_change (.of_bind (fun m _ _ => attempt_ne_error _ m) fun outcome => ?_)
  split
  · exact settles_ofStatus _
  · exact .of_shell fun _ => settles_ofStatus _
  · exact settles_killed _
  · exact settles_throw_bound
  · exact .of_shell fun _ => settles_ofStatus _

theorem settles_finish (run : Runner) (outcome : Except Stop Unit) : Settles (finish run outcome) := by
  unfold finish
  split
  · exact settles_throw_bound
  · exact settles_killed _
  · exact .of_shell fun _ => settles_ofStatus _
  · exact .of_change (settles_runEndAction run)
  · exact settles_runEndAction run

/-- The machine in which a process of its own starts. -/
def childOf (setUp : State → State) (m : Machine) : Machine where
  shell := setUp (startChild m.world.nextProcess m.shell)
  world := { m.world with nextProcess := m.world.nextProcess + 1 }

theorem inChild_apply (run : Runner) (setUp : State → State) (body : Act Unit) (m : Machine) :
    inChild run setUp body m =
      (do
        let ending ← finish run (← attempt body)
        let ends := (← shell).clock
        change fun _ => m.shell
        changeWorld fun w =>
          { w with signals := w.signals.filter (·.1 != m.world.nextProcess) }
        return (m.world.nextProcess, ending, ends)) (childOf setUp m) :=
  rfl

/-- What a process of its own leaves behind: the shell itself is as it was. -/
theorem inChild_eq_ok {run : Runner} {setUp : State → State} {body : Act Unit} {m m' : Machine}
    {process ends : Nat} {ending : Ending}
    (h : inChild run setUp body m = .ok (process, ending, ends) m') :
    process = m.world.nextProcess ∧ m'.shell = m.shell ∧
      ∃ m₁, (attempt body >>= finish run) (childOf setUp m) = .ok ending m₁ ∧
        ends = m₁.shell.clock := by
  rw [inChild_apply] at h
  obtain ⟨outcome, m₀, hbody, h⟩ := bind_eq_ok.1 h
  obtain ⟨ending', m₁, hfinish, h⟩ := bind_eq_ok.1 h
  cases h
  exact ⟨rfl, rfl, m₁, bind_eq_ok.2 ⟨outcome, m₀, hbody, hfinish⟩, rfl⟩

theorem isolated_inChild (run : Runner) (setUp : State → State) (body : Act Unit) :
    Isolated (inChild run setUp body) where
  own_eq h := congrArg State.own (inChild_eq_ok h).2.1
  fromOutside h := by
    rw [inChild_apply] at h
    obtain hbody | ⟨outcome, m₀, -, h⟩ := bind_eq_error.1 h
    · exact absurd hbody (attempt_ne_error body _)
    obtain hfinish | ⟨ending, m₁, -, h⟩ := bind_eq_error.1 h
    · exact (settles_finish run outcome).eq_bound hfinish ▸ trivial
    · cases h

theorem isolated_jobNumber : Isolated jobNumber :=
  isolated_shell.bind fun s => .bind isolated_change fun _ => isolated_pure _

theorem isolated_newStream (s : Stream) : Isolated (newStream s) :=
  isolated_modifyGet fun _ => rfl

theorem isolated_collect (stream : Nat) : Isolated (collect stream) :=
  isolated_modifyGet fun _ => rfl

theorem isolated_waitUntil (time : Nat) : Isolated (waitUntil time) :=
  isolated_change

theorem isolated_changeWorld (f : World → World) : Isolated (changeWorld f) :=
  isolated_modifyGet fun _ => rfl

theorem isolated_writeTo (stream : Nat) (bytes : Bytes) : Isolated (writeTo stream bytes) := by
  unfold writeTo
  split
  · exact isolated_pure _
  refine (isolated_modifyGet fun m => ?_).bind fun done => ?_
  · dsimp only
    split <;> rfl
  · cases done with
    | some done => exact isolated_pure _
    | none =>
      refine isolated_shell.bind fun s => ?_
      split
      · exact isolated_pure _
      · exact isolated_throw_signal _

theorem isolated_write (channel : Nat) (bytes : Bytes) : Isolated (write channel bytes) := by
  refine (isolated_shell.bind fun s => isolated_pure (s.channels.lookup channel)).bind fun stream => ?_
  cases stream with
  | none => exact isolated_pure _
  | some stream => exact isolated_writeTo stream bytes

theorem isolated_tellEnding (ending : Ending) : Isolated (tellEnding ending) := by
  cases ending with
  | exited status => exact isolated_pure _
  | killed n =>
    unfold tellEnding
    dsimp only
    split
    · exact (isolated_write _ _).bind fun _ => isolated_pure _
    · exact isolated_pure _

theorem isolated_arrive (n : Nat) : Isolated (arrive n) := by
  unfold arrive
  split
  · exact isolated_throw_signal n
  refine isolated_shell.bind fun s => ?_
  split
  · split
    · exact isolated_throw_signal n
    · exact isolated_pure _
  · exact isolated_pure _
  · exact isolated_change

theorem isolated_receive : Isolated receive := by
  refine isolated_get.bind fun m => ?_
  split
  · exact isolated_pure _
  · exact (isolated_changeWorld _).bind fun _ => isolated_forM fun _ => isolated_arrive _

theorem isolated_waitFor (run : Runner) (setUp : State → State) (body : Act Unit) :
    Isolated (waitFor run setUp body) :=
  isolated_jobNumber.bind fun _ => (isolated_inChild run setUp body).bind fun _ =>
    (isolated_waitUntil _).bind fun _ => isolated_receive.bind fun _ =>
      (isolated_tellEnding _).bind fun _ => isolated_pure _

/-- A command in a word is isolated, whatever it runs. -/
theorem isolated_capture (run : Runner) (c : Command) : Isolated (capture run c) :=
  (isolated_newStream _).bind fun _ => (isolated_waitFor run _ _).bind fun _ =>
    (isolated_collect _).bind fun _ => (isolated_waitUntil _).bind fun _ =>
      .bind isolated_change fun _ => isolated_pure _

theorem isolated_inBackground (run : Runner) (setUp : State → State) (body : Act Unit) :
    Isolated (inBackground run setUp body) :=
  isolated_jobNumber.bind fun _ => (isolated_newStream _).bind fun _ =>
    (isolated_inChild run _ body).bind fun _ => isolated_change

theorem isolated_runStages (run : Runner) (role : Role) (source : Option Nat)
    (stages : List Command) : Isolated (runStages run role source stages) := by
  induction stages generalizing source with
  | nil => exact isolated_pure _
  | cons c rest ih =>
    cases rest with
    | nil =>
      unfold runStages
      exact isolated_inChild run _ _
    | cons c' rest =>
      exact (isolated_newStream _).bind fun _ => (isolated_inChild run _ _).bind fun _ =>
        (isolated_collect _).bind fun _ => (isolated_newStream _).bind fun _ => ih _

theorem isolated_place (name : Bytes) : Isolated (place name) := by
  refine isolated_get.bind fun m => ?_
  dsimp only
  split
  · exact isolated_pure _
  split
  · exact isolated_pure _
  · split <;> exact isolated_pure _

theorem isolated_findProgram? (path name : Bytes) : Isolated (findProgram? path name) := by
  refine (isolated_forIn (fun folder _ => .bind ?_ fun entry => ?_) _).bind fun found => ?_
  · refine (isolated_place _).bind fun place => ?_
    split
    · exact isolated_pure _
    · exact isolated_get.bind fun _ => isolated_pure _
  · split <;> exact isolated_pure _
  · dsimp only
    split <;> exact isolated_pure _

theorem isolated_isBuiltinHere (functions : Bool) (name : Bytes) :
    Isolated (isBuiltinHere functions name) := by
  unfold isBuiltinHere
  split
  · exact isolated_pure _
  · refine isolated_shell.bind fun s => ?_
    split <;> exact isolated_pure _

theorem isolated_searchPath : Isolated searchPath :=
  .bind (.bind (isolated_shell.bind fun _ => isolated_pure _) fun _ => isolated_pure _) fun _ =>
    isolated_pure _

theorem isolated_lookAhead (c : Command) : Isolated (lookAhead c) := by
  unfold lookAhead
  split
  · refine (isolated_isBuiltinHere _ _).bind fun _ => isolated_shell.bind fun s => ?_
    split
    · refine isolated_shell.bind fun _ => isolated_searchPath.bind fun _ =>
        (isolated_findProgram? _ _).bind fun _ => ?_
      split
      · exact isolated_change
      · exact isolated_pure _
    · exact isolated_pure _
  · exact isolated_pure _

theorem isolated_runPipeline (run : Runner) (role : Role) (stages : List Command) :
    Isolated (runPipeline run role stages) :=
  (isolated_forM isolated_lookAhead).bind fun _ => isolated_jobNumber.bind fun _ =>
    (isolated_runStages run role none stages).bind fun _ => (isolated_waitUntil _).bind fun _ =>
      isolated_pure _

/-! ## Commands -/

end Act

/-- The commands that are left to processes of their own, where no words of redirections are
expanded. -/
inductive Command.Separate : Command → Prop where
  | subshell (line : Nat) (body : Command) : Separate (.subshell line body [])
  | background (body : Command) : Separate (.background body [])
  | pipeline (stages : List Command) (inBackground : Bool) :
      Separate (.pipeline stages inBackground)

namespace Act

theorem isolated_runSubshell (run : Runner) {role : Role} (hrole : role.last = false) (line : Nat)
    (body : Command) : Isolated (runSubshell run role line body []) := by
  unfold runSubshell
  refine .bind isolated_change fun _ => (isolated_pure []).bind fun _ =>
    isolated_shell.bind fun s => ?_
  rw [hrole]
  exact isolated_waitFor run id _

theorem isolated_runBackground (run : Runner) (body : Act Unit) :
    Isolated (runBackground run [] body) :=
  (isolated_pure []).bind fun _ => (isolated_inBackground run id _).bind fun _ => isolated_pure _

/-- **A command in a process of its own changes nothing that belongs to the shell.** -/
theorem isolated_dispatch (run : Runner) {role : Role} {c : Command} (hrole : role.last = false)
    (hc : c.Separate) : Isolated (dispatch run role c) := by
  cases hc with
  | subshell line body =>
    exact (isolated_runSubshell run hrole line body).bind fun _ => isolated_pure _
  | background body => exact (isolated_runBackground run _).bind fun _ => isolated_pure _
  | pipeline stages inBackground =>
    cases inBackground with
    | false =>
      exact (isolated_runPipeline run role stages).bind fun _ => (isolated_tellEnding _).bind fun _ =>
        isolated_pure _
    | true => exact (isolated_runBackground run _).bind fun _ => isolated_pure _

/-! ## Where no actions for signals are set -/

theorem own_runAction {run : Runner} {status n : Nat} {m m' : Machine}
    (h : runAction run status n m = .ok () m') (htraps : m.shell.traps = []) :
    m'.shell.own = m.shell.own := by
  unfold runAction at h
  obtain ⟨s, m₁, hs, h⟩ := bind_eq_ok.1 h
  cases hs
  split at h
  · obtain ⟨_, m₂, hm₂, h⟩ := bind_eq_ok.1 h
    cases hm₂
    obtain ⟨s, m₃, hs, h⟩ := bind_eq_ok.1 h
    cases hs
    rw [show List.lookup n _ = none from congrArg (List.lookup n) htraps] at h
    cases h
    rfl
  · cases h
    rfl

theorem own_forM_runAction {run : Runner} {status : Nat} {signals : List Nat} {m m' : Machine}
    (h : signals.forM (runAction run status) m = .ok () m') (htraps : m.shell.traps = []) :
    m'.shell.own = m.shell.own := by
  induction signals generalizing m with
  | nil =>
    cases h
    rfl
  | cons n signals ih =>
    obtain ⟨_, m₁, hm₁, h⟩ := bind_eq_ok.1 h
    have hown := own_runAction hm₁ htraps
    exact (ih h ((congrArg State.traps hown).trans htraps)).trans hown

theorem own_runActions {run : Runner} {m m' : Machine} (h : runActions run m = .ok () m')
    (htraps : m.shell.traps = []) : m'.shell.own = m.shell.own := by
  obtain ⟨_, m₁, hreceive, h⟩ := bind_eq_ok.1 h
  have hown := isolated_receive.own_eq hreceive
  have htraps₁ : m₁.shell.traps = [] := (congrArg State.traps hown).trans htraps
  obtain ⟨s, m₂, hs, h⟩ := bind_eq_ok.1 h
  cases hs
  split at h
  · cases h
    exact hown
  · obtain ⟨_, m₃, hm₃, h⟩ := bind_eq_ok.1 h
    cases hm₃
    obtain ⟨_, m₄, hloop, h⟩ := bind_eq_ok.1 h
    cases h
    -- The actions run under a status for the end that is taken back behind them.
    have hloop' := congrArg (fun s : State => { s with endStatus := m₁.shell.endStatus })
      (own_forM_runAction hloop htraps₁)
    exact hloop'.trans hown

/-- **Where no actions for signals are set, a command in a process of its own leaves the shell what
belongs to it.** -/
theorem own_evaluate {fuel : Nat} {role : Role} {c : Command} {m m' : Machine} {status : Nat}
    (hrole : role.last = false) (hc : c.Separate) (htraps : m.shell.traps = [])
    (h : evaluate fuel role c m = .ok status m') : m'.shell.own = m.shell.own := by
  cases fuel with
  | zero => cases h
  | succ fuel =>
    obtain ⟨off, m₁, hoff, h⟩ := bind_eq_ok.1 h
    cases hoff
    split at h
    · cases h
      rfl
    obtain ⟨_, m₂, hbefore, h⟩ := bind_eq_ok.1 h
    obtain ⟨⟨result, counts⟩, m₃, hdispatch, h⟩ := bind_eq_ok.1 h
    obtain ⟨_, m₄, hstatus, h⟩ := bind_eq_ok.1 h
    cases hstatus
    obtain ⟨_, m₅, hafter, h⟩ := bind_eq_ok.1 h
    have hown₂ := own_runActions hbefore htraps
    have hown₃ := ((isolated_dispatch _ hrole hc).own_eq hdispatch).trans hown₂
    have hown₅ := (own_runActions hafter ((congrArg State.traps hown₃).trans htraps)).trans hown₃
    obtain ⟨stops, m₆, hstops, h⟩ := bind_eq_ok.1 h
    cases hstops
    dsimp only at h
    split at h
    · cases h
    · cases h
      exact hown₅

end Act

end StepScript.Shell
