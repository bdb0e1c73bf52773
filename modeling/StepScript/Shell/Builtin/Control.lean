import StepScript.Shell.Condition
import StepScript.Shell.File
import StepScript.Shell.Format
import StepScript.Shell.Script
import StepScript.Shell.Setting

/-!
# Commands that steer a shell

Commands that leave loops, functions and scripts, that run texts as scripts, and that set actions for
signals; and the small commands that write and compare.
-/

set_option autoImplicit false

namespace StepScript.Shell.Builtin

/-! ## Writing and comparing -/

def echo (args : List Bytes) : Act Nat := do
  Act.emit (echoed args)
  return 0

def printf (args : List Bytes) : Act Nat := do
  match ← Act.operands args with
  | [] => Act.fault "usage: printf format [arg ...]".toList
  | format :: args => Act.print format args

def test (args : List Bytes) : Act Nat := do
  return if ← Condition.truth (2 * args.length + 2) false args then 0 else 1

def bracket (args : List Bytes) : Act Nat := do
  if (args.getLast?.bind (·.head?)) != some ']' then Act.fault "missing ]".toList
  test args.dropLast

/-! ## Leaving -/

def leaveLoops (again : Bool) (args : List Bytes) : Act Nat := do
  let n ←
    match args with
    | [] => pure 1
    | arg :: _ =>
      let n ← Act.number arg
      if n = 0 then Act.badNumber arg
      pure n
  let n := min n (← Act.shell).loops
  if n ≠ 0 then Act.change fun s => { s with skip := if again then .again n else .leave n }
  return 0

def leaveFunction (args : List Bytes) : Act Nat := do
  let status ←
    match args with
    | [] => return' false (← Act.shell).status
    | arg :: _ => return' true (← Act.number arg)
  return status
where
  /-- The rest is passed over. -/
  return' (given : Bool) (status : Nat) : Act Nat := do
    Act.change fun s => { s with skip := .return' given }
    return status

def exit (args : List Bytes) : Act Nat := do
  if let arg :: _ := args then
    let status ← Act.number arg
    Act.change fun s => { s with endStatus := some status }
  throw .exit

/-! ## Texts as scripts -/

def eval (run : Runner) (role : Role) (args : List Bytes) : Act Nat := do
  if args.isEmpty then return 0
  Act.runText run role.inner ([' '].intercalate args)

/-- The file that a name stands for. A name without a slash is looked for where programs are. -/
def scriptFile (name : Bytes) : Act Bytes := do
  if name.contains '/' then return name
  for folder in Act.folders (← Act.searchPath) do
    let full := Act.inFolder folder name
    match ← Act.entry? full with
    | some (_, .file (.data _)) | some (_, .file (.program _)) => return full
    | _ => pure ()
  Act.faultOf name "not found"

def dot (run : Runner) (args : List Bytes) : Act Nat := do
  match ← Act.operands args with
  | [] => return 0
  | name :: _ =>
    let name ← scriptFile name
    match ← Act.readFile name with
    | .error f =>
      Act.faultOf ("cannot open ".toList ++ name) (match f with
        | .notFound | .notFolder => "No such file"
        | f => faultText f)
    | .ok script =>
      Act.change fun s => { s with command := some name }
      Act.runFile run script

/-! ## Arguments -/

def shift (args : List Bytes) : Act Nat := do
  let n ←
    match args with
    | [] => pure 1
    | arg :: _ => Act.number arg
  let params := (← Act.shell).params
  if params.length < n then Act.fault "can't shift that many".toList
  Act.setParams (params.drop n)
  return 0

/-! ## Actions for signals -/

def showTraps : Act Unit := do
  for (n, action) in (← Act.shell).traps.mergeSort fun a b => a.1 ≤ b.1 do
    Act.emit ("trap -- ".toList ++ quoted action ++ ' ' :: Signal.name n ++ ['\n'])

def trap (args : List Bytes) : Act Nat := do
  match ← Act.operands args with
  | [] =>
    showTraps
    return 0
  | first :: rest =>
    let isNumber := !first.isEmpty && first.all Char.isDigit && (Signal.ofText? first).isSome
    let (action, signals) : Option Bytes × List Bytes :=
      if rest.isEmpty || isNumber then (none, first :: rest)
      else (if first == ['-'] then none else some first, rest)
    for s in signals do
      match Signal.ofText? s with
      | none =>
        let _ ← Act.write 2 ("trap: ".toList ++ s ++ ": bad trap\n".toList)
        return 1
      | some n =>
        Act.change fun s =>
          let others := s.traps.filter (·.1 != n)
          { s with
            traps := match action with
              | some action => (n, action) :: others
              | none => others }
    return 0

/-- How much time was used, which nobody counts. -/
def times : Act Nat := do
  for _ in [0, 1] do
    Act.emit "0m0.000000s 0m0.000000s\n".toList
  return 0

end StepScript.Shell.Builtin
