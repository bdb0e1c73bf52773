import StepScript.Shell.Program.Filter
import StepScript.Shell.Program.Tool

/-!
# Running programs

A program takes the place of a process: it gets the channels and the folder of the process, and the
variables that programs see. The shell is a program itself.
-/

set_option autoImplicit false

namespace StepScript.Shell

namespace Program

def showEnvironment (environment : List (Bytes × Bytes)) : Act Unit := do
  for (name, value) in environment do
    Act.emit (name ++ '=' :: value ++ ['\n'])

def printenv (environment : List (Bytes × Bytes)) (args : List Bytes) : Act Nat := do
  if args.isEmpty then
    showEnvironment environment
    return 0
  let mut status := 0
  for name in args do
    match environment.lookup name with
    | some value => Act.emit (value ++ ['\n'])
    | none => status := 1
  return status

def test (args : List Bytes) : Act Nat := do
  return if ← Condition.truth (2 * args.length + 2) false args then 0 else 1

def action? (name : String) : Option (List Bytes → Act Nat) :=
  match name with
  | "basename" => some basename
  | "cat" => some cat
  | "cut" => some cut
  | "dirname" => some dirname
  | "echo" => some echo
  | "expr" => some expr
  | "false" => some fun _ => return 1
  | "head" => some (endOfFiles "head" true)
  | "mkdir" => some mkdir
  | "printf" => some fun args => do
    match args with
    | [] => refuse "printf" "missing operand".toList
    | format :: args => Act.print format args
  | "pwd" => some fun _ => do
    Act.emit (locationText (← Act.shell).folder ++ ['\n'])
    return 0
  | "rev" => some rev
  | "rm" => some (remove "rm" false)
  | "rmdir" => some (remove "rmdir" true)
  | "seq" => some seq
  | "sleep" => some sleep
  | "sort" => some sort
  | "tail" => some (endOfFiles "tail" false)
  | "tee" => some tee
  | "test" => some test
  | "[" => some fun args => test args.dropLast
  | "touch" => some touch
  | "tr" => some tr
  | "true" => some fun _ => return 0
  | "uniq" => some uniq
  | "wc" => some wc
  | "yes" => some yes
  | _ => none

def failureStatus (name : String) : Nat :=
  match name with
  | "env" => 125
  | "expr" => 3
  | "printenv" | "sort" => 2
  | _ => 1

end Program

namespace Act

inductive Found where
  | program (name : String)
  | denied
  | missing
  | fault (f : FileFault)

def programAt (path : Bytes) : Act Found := do
  match ← place path with
  | .error .notFound | .error .notFolder => return .missing
  | .error f => return .fault f
  | .ok l =>
    match (← get).world.files.lookup? l with
    | none => return .missing
    | some (.file (.program name)) => return .program name
    | some _ => return .denied

/-- The program that a name stands for, which is a path if it has a slash. -/
def programNamed (path name : Bytes) : Act Found := do
  if name.contains '/' then programAt name
  else
    match ← findProgram? path name with
    | none => return .missing
    | some full => programAt full

/-- The state of a process when a program takes its place. Of the actions for signals only those stay
that ignore one. -/
def asProgram (name : Bytes) (s : State) : State :=
  { s with
    traps := s.traps.filter (·.2.isEmpty)
    arrived := []
    buffer := []
    name
    command := none }

def inPlace (run : Runner) :
    Nat → String → Bytes → List Bytes → List (Bytes × Bytes) → Act Ending
  | 0, _, _, _, _ => throw .bound
  | fuel + 1, program, name, args, environment => do
    change (asProgram name)
    if program = "sh" then become run name args environment
    else if program = "env" then env fuel environment args
    else
      let action :=
        match program with
        | "printenv" => Program.printenv environment args
        | program =>
          match Program.action? program with
          | some action => action args
          | none => return 0
      match ← attempt (do
        let status ← action
        if ← flush then return status
        Program.say program ("write error: ".toList ++ (← Program.outputFault))
        return Program.failureStatus program) with
      | .ok status => return .ofStatus status
      | .error (.signal n) => return .killed n
      | .error .bound => throw .bound
      | .error _ => return .ofStatus (← shell).status
where
  /-- A program in another environment, which is shown if there is no program. -/
  env : Nat → List (Bytes × Bytes) → List Bytes → Act Ending
    | 0, _, _ => throw .bound
    | fuel + 1, environment, args => do
      match args with
      | [] =>
        Program.showEnvironment environment
        if ← flush then return .exited 0
        Program.say "env" ("write error: ".toList ++ (← Program.outputFault))
        return .exited (Program.failureStatus "env")
      | arg :: rest =>
        if arg == ['-'] || arg == ['-', 'i'] then env fuel [] rest
        else if arg == ['-', 'u'] then
          env fuel (environment.filter fun v => v.1 != rest.headD []) (rest.drop 1)
        else
          match splitAssignment arg with
          | (name, some value) => env fuel (assocPut name value environment) rest
          | (name, none) =>
            match ← programNamed ((environment.lookup "PATH".toList).getD defaultPath) name with
            | .program program => inPlace run fuel program name rest environment
            | found =>
              let (reason, status) : String × Nat :=
                match found with
                | .denied => ("Permission denied", 126)
                | .fault f => (faultText f, 127)
                | _ => ("No such file or directory", 127)
              Program.say "env" (Program.inQuotes name ++ ": ".toList ++ reason.toList)
              return .exited status

def execute (run : Runner) (path name : Bytes) (args : List Bytes) : Act Nat := do
  match ← programNamed path name with
  | .program program =>
    match ← inPlace run (2 * args.length + 4) program name args (← environment) with
    | .exited status =>
      setStatus status
      throw .replaced
    | .killed n => throw (.signal n)
  | .missing => failWith .done 127 (name ++ ": not found".toList)
  | .denied => failWith .done 126 (name ++ ": Permission denied".toList)
  | .fault f =>
    failWith .done (if f = .nameTooLong then 127 else 126)
      (name ++ ": ".toList ++ (faultText f).toList)

end Act

end StepScript.Shell
