import StepScript.Shell.Builtin.Control
import StepScript.Shell.Builtin.Name
import StepScript.Shell.Builtin.Process
import StepScript.Shell.Program

/-!
# Commands of the shell

A command of the shell runs in the shell itself. A fault in one ends the script if the command is a
special one; otherwise the command has failed, and the script goes on.
-/

set_option autoImplicit false

namespace StepScript.Shell

def Builtin.action (run : Runner) (role : Role) (name : Bytes) (args : List Bytes) : Act Nat :=
  match String.ofList name with
  | "." => dot run args
  | "[" => bracket args
  | "alias" => alias' args
  | "bg" | "fg" => resume args
  | "break" => leaveLoops false args
  | "cd" | "chdir" => cd args
  | "command" => command args
  | "continue" => leaveLoops true args
  | "echo" => echo args
  | "eval" => eval run role args
  | "exec" => do
    match ← Act.operands args with
    | [] => return 0
    | name :: args => Act.execute run (← Act.searchPath) name args
  | "exit" => exit args
  | "export" => markAll "export" true false args
  | "false" => return 1
  | "getopts" => getopts args
  | "hash" => hash args
  | "jobs" => jobs args
  | "kill" => kill args
  | "local" => local' args
  | "printf" => printf args
  | "pwd" => pwd args
  | "read" => read args
  | "readonly" => markAll "readonly" false true args
  | "return" => leaveFunction args
  | "set" => set args
  | "shift" => shift args
  | "test" => test args
  | "times" => times
  | "trap" => trap args
  | "type" => type' args
  | "ulimit" => ulimit args
  | "umask" => umask args
  | "unalias" => unalias args
  | "unset" => unset args
  | "wait" => wait args
  | _ => return 0

/-- A command of the shell runs. The answer is its status. -/
def Act.runBuiltin (run : Runner) (role : Role) (special : Bool) (name : Bytes)
    (args : List Bytes) : Act Nat := do
  let before := (← shell).command
  change fun s => { s with command := some name }
  let outcome ← attempt do
    let status ← Builtin.action run role name args
    if ← flush then return status
    change fun s => { s with command := some name }
    warn (name ++ ": I/O error".toList)
    return status ||| 1
  change fun s => { s with command := before, buffer := [] }
  match outcome with
  | .ok status => return status
  | .error .fault => if special then throw .fault else return (← shell).status
  | .error stop => throw stop

end StepScript.Shell
