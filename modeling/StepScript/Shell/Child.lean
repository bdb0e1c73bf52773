import StepScript.Shell.Script

/-!
# Processes of their own

A shell leaves some commands to processes of their own, which start with a copy of its state and
share only the world with it. What becomes of the copy is lost; what is left is how the process ended
and the time at which it did.

A command in the background runs at once, too, but the time that it takes does not pass for the
shell, so what both write is put in order later.
-/

set_option autoImplicit false

namespace StepScript.Shell

namespace Act

/-! ## Jobs -/

/-- The number for a new job. The number of a job that ended and was waited for is used again. -/
def jobNumber : Act Nat := do
  let s ← shell
  let isFree (n : Nat) : Bool :=
    match s.jobs.find? (·.number == n) with
    | none => true
    | some j => j.known && j.ends ≤ s.clock
  let n := ((List.range' 1 (s.jobs.length + 1)).find? isFree).getD 1
  change fun s => { s with jobs := s.jobs.filter (·.number != n) }
  return n

/-! ## Copies -/

/-- The state that a process starts with. Of the actions for signals only those stay that ignore
one. -/
def startChild (process : Nat) (s : State) : State :=
  { s with
    process
    ancestors := s.process :: s.ancestors
    linesRead := 1
    jobs := []
    traps := s.traps.filter (·.2.isEmpty)
    arrived := []
    buffer := [] }

/-- A process of its own runs a step, and the shell waits for it. -/
def inChild (run : Runner) (setUp : State → State) (body : Act Unit) : Act (Nat × Ending × Nat) := do
  let parent ← shell
  let process ← newProcess
  change fun s => setUp (startChild process s)
  let ending ← finish run (← attempt body)
  let ends := (← shell).clock
  change fun _ => parent
  changeWorld fun w => { w with signals := w.signals.filter (·.1 != process) }
  return (process, ending, ends)

def waitUntil (time : Nat) : Act Unit :=
  change fun s => { s with clock := max s.clock time }

/-- What a shell says when a process that it waited for was killed. -/
def tellEnding (ending : Ending) : Act Unit := do
  match ending with
  | .exited _ => return
  | .killed n =>
    if n ≠ Signal.interrupt && n ≠ Signal.pipe then
      let _ ← write 2 ((Signal.description n).toList ++ ['\n'])

/-- A process of its own runs a step. The answer is its status. -/
def waitFor (run : Runner) (setUp : State → State) (body : Act Unit) : Act Nat := do
  let _ ← jobNumber
  let (_, ending, ends) ← inChild run setUp body
  waitUntil ends
  receive
  tellEnding ending
  return ending.status

def connect (channel stream : Nat) (s : State) : State :=
  { s with channels := (channel, stream) :: s.channels.filter (·.1 != channel) }

def newStream (s : Stream) : Act Nat :=
  modifyGet fun m =>
    let (n, world) := m.world.openStream s
    (n, { m with world })

def lastTime (chunks : List (Nat × Bytes)) : Nat :=
  chunks.foldl (fun t c => max t c.1) 0

/-- What was written to a stream, which is not used any more, and the last time at which something
was. -/
def collect (stream : Nat) : Act (Bytes × Nat) :=
  modifyGet fun m =>
    match m with
    | ⟨shell, world⟩ =>
      let bytes := world.written stream
      let time :=
        match world.streams[stream]? with
        | some (.collector _ _ chunks) => lastTime chunks
        | _ => 0
      ((bytes, time),
        ⟨shell, { world with streams := world.streams.set! stream (.queue [] 0) }⟩)

/-- What a command writes, up to its end. Its status is kept. -/
def capture (run : Runner) (c : Command) : Act Bytes := do
  let stream ← newStream (.collector none 0 [])
  let status ← waitFor run (connect 1 stream) do
    let _ ← run ⟨false, true⟩ c
  let (bytes, time) ← collect stream
  waitUntil time
  change fun s => { s with outputStatus := status }
  return bytes

/-! ## The background -/

def startTime : Nat := 1000

def inBackground (run : Runner) (setUp : State → State) (body : Act Unit) : Act Unit := do
  let number ← jobNumber
  let nothing ← newStream (.device .null true false)
  let (process, ending, ends) ← inChild run
    (fun s =>
      setUp (connect 0 nothing { s with
        clock := s.clock + startTime
        traps := (2, []) :: (3, []) :: s.traps.filter fun t => t.1 != 2 && t.1 != 3 })) body
  change fun s =>
    { s with
      jobs := ⟨number, process, ending, ends, false⟩ :: s.jobs
      lastJob := some process }

/-! ## Pipelines -/

/-- How much can be written where nobody has read yet. -/
def pipeBound : Nat := Nat.pow 2 19

/-- The stages of a pipeline, the first of which reads from a stream if there is one. The answer is
how the last one ended. -/
def runStages (run : Runner) (role : Role) : Option Nat → List Command → Act (Nat × Ending × Nat)
  | _, [] => return (0, .exited 0, 0)
  | source, c :: rest => do
    let body : Act Unit := do
      let _ ← run { role with last := true } c
    let input (s : State) : State :=
      match source with
      | some stream => connect 0 stream s
      | none => s
    match rest with
    | [] => inChild run input body
    | rest =>
      let out ← newStream (.collector (some pipeBound) 0 [])
      let (_, _, ends) ← inChild run (fun s => connect 1 out (input s)) body
      let (bytes, time) ← collect out
      let source ← newStream (.queue bytes (max ends time))
      runStages run role (some source) rest

end Act

end StepScript.Shell
