import StepScript.Shell.Child
import StepScript.Shell.File
import StepScript.Shell.Setting

/-!
# Commands for processes and folders

Commands for what runs in the background, for signals, and for what a process hands on to others: its
folder, its limits and the permissions of new files.
-/

set_option autoImplicit false

namespace StepScript.Shell.Builtin

/-! ## Jobs -/

def job (arg : Bytes) : Act Job := do
  let jobs := (← Act.shell).jobs
  let wanted := arg.drop 1
  let isCurrent := wanted.isEmpty || wanted == ['%'] || wanted == ['+']
  let found : Option Job :=
    if isCurrent then jobs.head?
    else if wanted == ['-'] then jobs[1]?
    else if wanted.all Char.isDigit then
      jobs.find? fun j => j.number == (digitsIn 10 0 wanted).1
    else none
  match found with
  | some j => return j
  | none =>
    if isCurrent then Act.fault "No current job".toList
    else Act.fault ("No such job: ".toList ++ arg)

def changeJob (number : Nat) (f : Job → Job) : Act Unit :=
  Act.change fun s => { s with jobs := s.jobs.map fun j => if j.number = number then f j else j }

def describe (j : Job) (clock : Nat) (mark : Char) : Bytes :=
  let state : Bytes :=
    if clock < j.ends then "Running".toList
    else
      match j.ending with
      | .exited 0 => "Done".toList
      | .exited n => "Done(".toList ++ Bytes.ofNat n ++ [')']
      | .killed n => (Signal.description n).toList
  let line := '[' :: Bytes.ofNat j.number ++ [']', ' ', mark, ' '] ++ state
  line ++ List.replicate (33 - line.length) ' '

/-- What runs in the background. A job that ended is told of once. -/
def jobs (args : List Bytes) : Act Nat := do
  let chosen ← Act.switches "lp" args
  let s ← Act.shell
  let shown ← if chosen.operands.isEmpty then pure s.jobs else chosen.operands.mapM job
  for j in shown do
    let place := s.jobs.findIdx (·.number == j.number)
    let mark := if place = 0 then '+' else if place = 1 then '-' else ' '
    if chosen.given.any (·.1 == 'p') then Act.emit (Bytes.ofNat j.process ++ ['\n'])
    else Act.emit (describe j s.clock mark ++ ['\n'])
  Act.change fun s =>
    { s with
      jobs := s.jobs.filter fun j =>
        !(j.ends ≤ s.clock && shown.any fun k => k.number == j.number) }
  return 0

/-- A job is waited for, if it is there. The answer is its status. -/
def waitForJob (found : Option Job) : Act Nat := do
  match found with
  | none => return 127
  | some j =>
    let runs := (← Act.shell).clock < j.ends || !j.known
    Act.waitUntil j.ends
    if runs then Act.tellEnding j.ending
    changeJob j.number fun j => { j with known := true }
    return j.ending.status

/-- Jobs are waited for, all of them if none is named. -/
def wait (args : List Bytes) : Act Nat := do
  match ← Act.operands args with
  | [] =>
    for j in (← Act.shell).jobs do
      Act.waitUntil j.ends
      changeJob j.number fun j => { j with known := true }
    return 0
  | operands =>
    let mut status := 127
    for arg in operands do
      if arg.head? == some '%' then status ← waitForJob (some (← job arg))
      else
        let process ← Act.number arg
        match (← Act.shell).jobs.find? (·.process == process) with
        | some j => status ← waitForJob (some j)
        | none => pure ()
    return status

/-- A job goes on, which no job does without a terminal. -/
def resume (args : List Bytes) : Act Nat := do
  let name := (← Act.operands args).head?
  let _ ← job (name.getD [])
  Act.fault ("job ".toList ++ name.getD "(null)".toList ++
    " not created under job control".toList)

/-! ## Signals -/

def killUsage {α : Type} : Act α :=
  Act.fault ("Usage: kill [-s sigspec | -signum | -sigspec] [pid | job]... or\n".toList ++
    "kill -l [exitstatus]".toList)

/-- The names of all signals, or of one that a status tells of. -/
def listSignals (args : List Bytes) : Act Nat := do
  match args with
  | [] =>
    Act.emit ['0', '\n']
    for n in List.range' 1 (Signal.count - 1) do
      Act.emit (Signal.name n ++ ['\n'])
  | arg :: _ =>
    let n ← Act.number arg
    let n := if 128 < n then n - 128 else n
    if 0 < n && n < Signal.count then Act.emit (Signal.name n ++ ['\n'])
    else Act.fault ("invalid signal number or exit status: ".toList ++ arg)
  return 0

def dropLater (time : Nat) : Stream → Stream
  | .collector bound size chunks => .collector bound size (chunks.filter (·.1 ≤ time))
  | s => s

/-- A signal is sent to a process. The answer is whether the process is there. -/
def send (signal process : Nat) : Act Bool := do
  let s ← Act.shell
  if process == s.process || s.ancestors.contains process then
    if signal ≠ 0 then
      Act.changeWorld fun w => { w with signals := w.signals ++ [(process, signal)] }
    return true
  else
    match s.jobs.find? (·.process == process) with
    | none => return false
    | some j =>
      if j.ends ≤ s.clock then return !j.known
      if signal ≠ 0 && !Signal.isHarmless signal && signal ≠ 2 && signal ≠ 3 then
        changeJob j.number fun j => { j with ending := .killed signal, ends := s.clock }
        Act.changeWorld fun w => { w with streams := w.streams.map (dropLater s.clock) }
      return true

def signalNamed? (s : Bytes) : Option Nat :=
  match Signal.ofText? s with
  | some 0 => if s.all Char.isDigit then some 0 else none
  | n => n

def kill (args : List Bytes) : Act Nat := do
  match args with
  | [] => killUsage
  | first :: rest =>
    let direct? := if first.head? == some '-' then signalNamed? (first.drop 1) else none
    let (signal, lists, targets) : Nat × Bool × List Bytes ←
      match direct? with
      | some n => pure (n, false, rest)
      | none =>
        let s ← Act.switches "ls:" args
        let lists := s.given.any (·.1 == 'l')
        match s.given.reverse.lookup 's' with
        | none => pure (Signal.terminate, lists, s.operands)
        | some name =>
          match signalNamed? name with
          | some n => pure (n, lists, s.operands)
          | none => Act.fault ("invalid signal number or name: ".toList ++ name)
    if lists then return ← listSignals targets
    if targets.isEmpty then killUsage
    let mut status := 0
    for target in targets do
      let process ←
        match target with
        | '%' :: _ => pure (← job target).process
        | '-' :: digits => Act.number digits
        | digits => Act.number digits
      if !(← send signal process) then
        Act.warn "No such process\n".toList
        status := 1
    return status

/-! ## Folders -/

def behindFolder (folder path : Bytes) : Bytes :=
  if folder.getLast? == some '/' then folder ++ path else folder ++ '/' :: path

/-- The shell moves to a folder, if it is one. -/
def enter? (path : Bytes) : Act Bool := do
  let s ← Act.shell
  let full := if path.head? == some '/' then path else behindFolder s.folderName path
  let steps := (FilePath.ofText full).steps.foldl (fun (out : List Bytes) step =>
    if step == FilePath.here then out
    else if step == FilePath.back then out.dropLast
    else out ++ [step]) []
  let slashes : Bytes :=
    if full.take 2 == ['/', '/'] && full.take 3 != ['/', '/', '/'] then ['/'] else []
  let name := slashes ++ (if steps.isEmpty then ['/'] else steps.flatMap ('/' :: ·))
  match ← Act.place name with
  | .error _ => return false
  | .ok l =>
    if !(← Act.isFolder name) then return false
    Act.put "OLDPWD".toList s.folderName true false
    Act.change fun s =>
      { s with folder := l, folderName := name, foundElsewhere := s.found.map (·.1) }
    Act.put "PWD".toList name true false
    return true

def cd (args : List Bytes) : Act Nat := do
  let given := (← Act.switches "LP" args).operands.head?
  let (dest, tells) : Bytes × Bool ←
    match given with
    | none => pure ((← Act.value? "HOME".toList).getD [], false)
    | some ['-'] => pure ((← Act.value? "OLDPWD".toList).getD [], true)
    | some dest => pure (dest, false)
  let isPlain := (FilePath.pieces dest).head?.map fun p =>
    p == FilePath.here || p == FilePath.back || (p.isEmpty && dest.head? == some '/')
  let search ←
    if isPlain == some true then pure []
    else pure (Act.folders ((← Act.value? "CDPATH".toList).getD []))
  let dest := if dest.isEmpty then FilePath.here else dest
  let tell : Act Nat := do
    Act.emit ((← Act.shell).folderName ++ ['\n'])
    return 0
  for folder in search do
    let path := Act.inFolder folder dest
    if ← Act.isFolder path then
      if ← enter? path then
        if tells || !folder.isEmpty then return ← tell
        return 0
  if ← enter? dest then
    if tells then return ← tell
    return 0
  Act.fault ("can't cd to ".toList ++ dest)

def pwd (args : List Bytes) : Act Nat := do
  let _ ← Act.switches "LP" args
  Act.emit ((← Act.shell).folderName ++ ['\n'])
  return 0

/-! ## Limits -/

def permissionLetters (bits : Nat) : Bytes :=
  (if bits / 4 % 2 = 1 then ['r'] else []) ++ (if bits / 2 % 2 = 1 then ['w'] else []) ++
    (if bits % 2 = 1 then ['x'] else [])

def permissionBits? (s : Bytes) : Option Nat :=
  s.foldlM (fun bits c =>
    match c with
    | 'r' => some (bits ||| 4)
    | 'w' => some (bits ||| 2)
    | 'x' => some (bits ||| 1)
    | _ => none) 0

/-- Permissions after one change that a text describes: for whom, in which way, and which. -/
def changePermissions? (allowed : Nat) (s : Bytes) : Option Nat :=
  let who := s.takeWhile fun c => c == 'u' || c == 'g' || c == 'o' || c == 'a'
  let all := who.isEmpty || who.contains 'a'
  match s.drop who.length with
  | op :: letters =>
    match permissionBits? letters with
    | none => none
    | some bits =>
      let places := [('u', 64), ('g', 8), ('o', 1)].filter fun p => all || who.contains p.1
      let mask := (places.map fun p => 7 * p.2).foldl (· + ·) 0
      let bits := (places.map fun p => bits * p.2).foldl (· + ·) 0
      if op = '+' then some (allowed ||| bits)
      else if op = '-' then some (allowed &&& (511 ^^^ bits))
      else if op = '=' then some ((allowed &&& (511 ^^^ mask)) ||| bits)
      else none
  | [] => none

def umask (args : List Bytes) : Act Nat := do
  let s ← Act.switches "S" args
  let mask := (← Act.shell).mask
  match s.operands with
  | [] =>
    if s.given.isEmpty then
      Act.emit (['0'] ++ [mask / 64, mask / 8 % 8, mask % 8].flatMap Bytes.ofNat ++ ['\n'])
    else
      let allowed := 511 ^^^ mask
      let part (who : String) (bits : Nat) : Bytes :=
        who.toList ++ '=' :: permissionLetters (bits % 8)
      Act.emit ([','].intercalate
        [part "u" (allowed / 64), part "g" (allowed / 8), part "o" allowed] ++ ['\n'])
    return 0
  | arg :: _ =>
    let mask ←
      if (arg.headD 'a').isDigit then
        match digitsIn 8 0 arg with
        | (n, []) => pure (n % 512)
        | _ => Act.badNumber arg
      else
        let changed := (Act.folders (arg.map fun c => if c = ',' then ':' else c)).foldlM
          changePermissions? (511 ^^^ mask)
        match changed with
        | some allowed => pure (511 ^^^ allowed)
        | none => Act.fault ("Illegal mode: ".toList ++ arg)
    Act.change fun s => { s with mask }
    return 0

def ulimit (args : List Bytes) : Act Nat := do
  let s ← Act.switches "HSatfdscmlpnvwr" args
  if s.operands.isEmpty then
    Act.emit (if s.given.any (·.1 == 'c') then ['0', '\n'] else "unlimited\n".toList)
  return 0

end StepScript.Shell.Builtin
