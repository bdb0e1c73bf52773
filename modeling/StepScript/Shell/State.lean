import StepScript.Shell.Command
import StepScript.Shell.Signal
import StepScript.Shell.World

/-!
# The state of a shell

What a shell knows while it runs a script. A step of a run changes the state, and it may **stop**:
what it was a step of is left then, up to where the stop is dealt with.

Whatever a shell has to say it says on its channel for errors, behind its name and the number of the
line that it is at.
-/

set_option autoImplicit false

namespace StepScript.Shell

/-! ## Variables -/

/-- A variable. It may be marked without having a value. -/
structure Variable where
  value : Option Bytes
  /-- Whether programs see it. -/
  exported : Bool
  readonly : Bool
deriving DecidableEq

def Variable.none : Variable := ⟨.none, false, false⟩

/-- What a function hides while it runs. -/
inductive Hidden where
  | variable (name : Bytes) (before : Option Variable)
  | options (before : List Char)

/-! ## Control -/

inductive Ending where
  | exited (status : Nat)
  | killed (signal : Nat)
deriving DecidableEq

/-- The ending with a status, of which only eight bits are kept. -/
def Ending.ofStatus (status : Nat) : Ending :=
  .exited (status % 256)

def Ending.status : Ending → Nat
  | .exited status => status
  | .killed signal => 128 + signal

inductive Skip where
  | nothing
  /-- The rest of so many loops. -/
  | leave (loops : Nat)
  /-- The rest of a turn of the outermost of so many loops. -/
  | again (loops : Nat)
  /-- The rest of a function or of a script, whose status was given or not. -/
  | return' (given : Bool)
deriving DecidableEq

/-- Why a step ends all that it is a part of. -/
inductive Stop where
  /-- A fault, after which only what cares goes on. -/
  | fault
  /-- The end that a script asks for. -/
  | exit
  /-- The end of a script that is told not to go on after a failure. -/
  | done
  /-- The end of a program that took the place of the shell. -/
  | replaced
  | signal (n : Nat)
  /-- The bound of all runs. -/
  | bound
deriving DecidableEq

/-- A command that runs or ran in the background. -/
structure Job where
  number : Nat
  process : Nat
  ending : Ending
  /-- The time at which it ends. -/
  ends : Nat
  /-- Whether it was waited for. -/
  known : Bool
deriving DecidableEq

/-! ## Shells -/

structure State where
  /-- The number of the process. -/
  process : Nat
  /-- The number of the process that the script was started as. -/
  script : Nat
  /-- The numbers of the processes that started one another and at last this one, the last of them
  first. -/
  ancestors : List Nat
  /-- The name that messages start with. -/
  name : Bytes
  params : List Bytes
  /-- The number of the next argument that options are read from. -/
  nextOption : Nat
  /-- The place in the argument in front of it, if options are left in that. -/
  optionOffset : Option Nat
  vars : List (Bytes × Variable)
  /-- What the functions that run hide, the innermost one first. -/
  hidden : List (List Hidden)
  functions : List (Bytes × Nat × Command)
  aliases : List (Bytes × Bytes)
  /-- Where programs were found that were named without a slash. -/
  found : List (Bytes × Bytes)
  /-- The names of those that were found from another folder. -/
  foundElsewhere : List Bytes
  /-- The letters of the options that are on. -/
  options : List Char
  /-- The actions for signals. An empty one says that the signal is ignored. -/
  traps : List (Nat × Bytes)
  /-- Signals that arrived and whose actions did not run. -/
  arrived : List Nat
  /-- The streams of the channels. -/
  channels : List (Nat × Nat)
  /-- The folder that paths start from, and its name. -/
  folder : Location
  folderName : Bytes
  /-- The permissions that new files do not get. -/
  mask : Nat
  /-- The status of the last command. -/
  status : Nat
  /-- The status of the last command in a word. -/
  outputStatus : Nat
  /-- The status with which the shell ends, if that is settled. -/
  endStatus : Option Nat
  skip : Skip
  /-- How many loops are open. -/
  loops : Nat
  /-- How many functions run, one inside of the other. -/
  calls : Nat
  /-- The line of the current command. -/
  line : Nat
  /-- The line up to which the script was read. -/
  linesRead : Nat
  /-- The builtin command that runs. -/
  command : Option Bytes
  jobs : List Job
  /-- The process of the last command in the background. -/
  lastJob : Option Nat
  /-- What the builtin command that runs has written, the last part first. -/
  buffer : List Bytes
  documents : Array Document
  /-- The time in microseconds. -/
  clock : Nat
  /-- Whether a command is being traced. -/
  tracing : Bool

structure Machine where
  shell : State
  world : World

abbrev Act := EStateM Stop Machine

structure Role where
  /-- Whether its status is looked at, so that a failure is no reason to end the script. -/
  tested : Bool
  /-- Whether the shell does nothing else before it ends. -/
  last : Bool
deriving DecidableEq

namespace Role

def step : Role := ⟨false, false⟩

def test : Role := ⟨true, false⟩

def inner (r : Role) : Role := { r with last := false }

end Role

/-- How commands are run from inside of others. The answer is the status of the command. -/
abbrev Runner := Role → Command → Act Nat

namespace Act

def shell : Act State :=
  return (← get).shell

def change (f : State → State) : Act Unit :=
  modify fun m => { m with shell := f m.shell }

def changeWorld (f : World → World) : Act Unit :=
  modify fun m => { m with world := f m.world }

def setStatus (status : Nat) : Act Unit :=
  change fun s => { s with status }

def hasOption (letter : Char) : Act Bool :=
  return (← shell).options.contains letter

/-! ## Writing -/

def stream? (channel : Nat) : Act (Option Nat) :=
  return (← shell).channels.lookup channel

/-- Some bytes are written to a stream. The answer is whether that went well. -/
def writeTo (stream : Nat) (bytes : Bytes) : Act Bool := do
  if bytes.isEmpty then return true
  let done ← modifyGet fun m =>
    match m with
    | ⟨shell, world⟩ =>
      match world.write stream shell.clock bytes with
      | .done world => (some true, ⟨shell, world⟩)
      | .failed => (some false, ⟨shell, world⟩)
      | .broken => (none, ⟨shell, world⟩)
  match done with
  | some done => return done
  | none =>
    if ((← shell).traps.lookup Signal.pipe).isSome then return false
    else throw (.signal Signal.pipe)

/-- Some bytes are written to a channel. The answer is whether that went well. -/
def write (channel : Nat) (bytes : Bytes) : Act Bool := do
  match ← stream? channel with
  | none => return false
  | some stream => writeTo stream bytes

def emit (bytes : Bytes) : Act Unit :=
  change fun s => { s with buffer := bytes :: s.buffer }

/-- The output of a builtin command so far is written. The answer is whether that went well. -/
def flush : Act Bool := do
  let parts := (← shell).buffer
  if parts.isEmpty then return true
  change fun s => { s with buffer := [] }
  write 1 parts.reverse.flatten

/-! ## Messages -/

def warn (message : Bytes) : Act Unit := do
  let s ← shell
  let command : Bytes :=
    match s.command with
    | some c => c ++ ": ".toList
    | none => []
  let _ ← write 2
    (s.name ++ ": ".toList ++ Bytes.ofNat s.line ++ ": ".toList ++ command ++ message ++ ['\n'])

def failWith {α : Type} (stop : Stop) (status : Nat) (message : Bytes) : Act α := do
  warn message
  let _ ← flush
  setStatus status
  throw stop

def fault {α : Type} (message : Bytes) : Act α :=
  failWith .fault 2 message

def faultOf {α : Type} (subject : Bytes) (message : String) : Act α :=
  fault (subject ++ ": ".toList ++ message.toList)

def badNumber {α : Type} (text : Bytes) : Act α :=
  fault ("Illegal number: ".toList ++ text)

/-- The number that a text stands for, which must not be negative. -/
def number (text : Bytes) : Act Nat := do
  match wholeNumber? (some 10) text with
  | some n => if 0 ≤ n && n < Int.pow 2 31 then return n.toNat else badNumber text
  | none => badNumber text

/-! ## Variables -/

def named? (name : Bytes) : Act (Option Variable) :=
  return (← shell).vars.lookup name

def value? (name : Bytes) : Act (Option Bytes) :=
  return (← named? name).bind (·.value)

def separators : Act Bytes :=
  return (← value? "IFS".toList).getD [' ', '\t', '\n']

def assocPut {α : Type} (name : Bytes) (v : α) : List (Bytes × α) → List (Bytes × α)
  | [] => [(name, v)]
  | (n, w) :: rest => if n = name then (name, v) :: rest else (n, w) :: assocPut name v rest

def assocDrop {α : Type} (name : Bytes) (l : List (Bytes × α)) : List (Bytes × α) :=
  l.filter (·.1 != name)

/-- What else changes with a variable: options are read from the argument that it names, and programs
are looked for elsewhere. -/
def noticeChange (name : Bytes) (value : Option Bytes) : Act Unit := do
  if name = "PATH".toList then change fun s => { s with found := [] }
  if name = "OPTIND".toList then
    let n ← number (value.getD [])
    change fun s => { s with nextOption := if n = 0 then 1 else n, optionOffset := none }

def checkAssignable (name : Bytes) : Act Unit := do
  if ((← named? name).map (·.readonly)).getD false then faultOf name "is read only"

/-- A variable gets a value and marks, besides the marks that it has. -/
def put (name value : Bytes) (exported readonly : Bool) : Act Unit := do
  checkAssignable name
  let all ← hasOption 'a'
  let old := (← named? name).getD .none
  noticeChange name (some value)
  change fun s =>
    { s with
      vars := assocPut name
        ⟨some value, old.exported || exported || all, old.readonly || readonly⟩ s.vars }

def checkName (name : Bytes) : Act Unit := do
  if !isName name then faultOf name "bad variable name"

def assign (name value : Bytes) : Act Unit := do
  checkName name
  put name value false false

def unset (name : Bytes) : Act Unit := do
  checkName name
  checkAssignable name
  if name = "OPTIND".toList then noticeChange name none
  change fun s => { s with vars := assocDrop name s.vars }

/-- A variable gets marks, and it need not have a value. -/
def mark (name : Bytes) (exported readonly : Bool) : Act Unit := do
  match ← named? name with
  | some v =>
    change fun s =>
      { s with
        vars := assocPut name
          { v with exported := v.exported || exported, readonly := v.readonly || readonly }
          s.vars }
  | none =>
    checkName name
    change fun s => { s with vars := assocPut name ⟨none, exported, readonly⟩ s.vars }

def environment : Act (List (Bytes × Bytes)) :=
  return (← shell).vars.filterMap fun (name, v) =>
    if v.exported then v.value.map fun value => (name, value) else none

/-! ## Hiding -/

def openScope : Act Unit :=
  change fun s => { s with hidden := [] :: s.hidden }

/-- A variable is hidden, with a new value if there is one. -/
def hide (name : Bytes) (value : Option Bytes) (exported : Bool) : Act Unit := do
  let before ← named? name
  match value with
  | some value =>
    put name value exported false
  | none => if before.isNone then checkName name
  change fun s =>
    { s with
      hidden := match s.hidden with
        | [] => []
        | scope :: rest => (.variable name before :: scope) :: rest }

def closeScope : Act Unit := do
  match (← shell).hidden with
  | [] => pure ()
  | scope :: rest =>
    change fun s => { s with hidden := rest }
    for h in scope do
      match h with
      | .options before => change fun s => { s with options := before }
      | .variable name none =>
        checkName name
        change fun s => { s with vars := assocDrop name s.vars }
      | .variable name (some v) =>
        noticeChange name v.value
        change fun s => { s with vars := assocPut name v s.vars }

/-! ## Processes -/

/-- Some time passes. -/
def pass (time : Nat) : Act Unit :=
  change fun s => { s with clock := s.clock + time }

def newProcess : Act Nat :=
  modifyGet fun m =>
    (m.world.nextProcess,
      { m with world := { m.world with nextProcess := m.world.nextProcess + 1 } })

/-- A signal arrives. One that has no action ends the shell. -/
def arrive (n : Nat) : Act Unit := do
  if n = Signal.kill then throw (.signal n)
  else
    match (← shell).traps.lookup n with
    | none => if !Signal.isHarmless n then throw (.signal n)
    | some [] => return
    | some _ =>
      change fun s =>
        { s with arrived := if s.arrived.contains n then s.arrived else s.arrived ++ [n] }

def receive : Act Unit := do
  let m ← get
  if m.world.signals.isEmpty then return
  let mine := m.world.signals.filter (·.1 == m.shell.process)
  changeWorld fun w => { w with signals := w.signals.filter (·.1 != m.shell.process) }
  mine.forM fun (_, n) => arrive n

/-- What becomes of a step that may stop, with the state that it leaves. -/
def attempt {α : Type} (act : Act α) : Act (Except Stop α) := fun m =>
  match act m with
  | .ok a m => .ok (.ok a) m
  | .error stop m => .ok (.error stop) m

def again {α : Type} : Except Stop α → Act α
  | .ok a => return a
  | .error stop => throw stop

/-! ## Laws -/

section

variable {α β : Type}

theorem bind_eq_ok {x : Act α} {f : α → Act β} {m m' : Machine} {b : β} :
    (x >>= f) m = .ok b m' ↔ ∃ a m₁, x m = .ok a m₁ ∧ f a m₁ = .ok b m' := by
  change EStateM.bind x f m = _ ↔ _
  unfold EStateM.bind
  cases x m <;> simp [and_assoc]

theorem bind_eq_error {x : Act α} {f : α → Act β} {m m' : Machine} {stop : Stop} :
    (x >>= f) m = .error stop m' ↔
      x m = .error stop m' ∨ ∃ a m₁, x m = .ok a m₁ ∧ f a m₁ = .error stop m' := by
  change EStateM.bind x f m = _ ↔ _
  unfold EStateM.bind
  cases x m <;> simp [and_assoc]

theorem attempt_of_ok {act : Act α} {m m' : Machine} {a : α} (h : act m = .ok a m') :
    attempt act m = .ok (.ok a) m' := by
  rw [attempt, h]

theorem attempt_ne_error (act : Act α) (m : Machine) {m' : Machine} {stop : Stop} :
    attempt act m ≠ .error stop m' := by
  unfold attempt
  split <;> simp

end

end Act

end StepScript.Shell
