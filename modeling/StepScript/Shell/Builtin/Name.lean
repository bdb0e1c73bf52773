import StepScript.Shell.Builtin.Variable
import StepScript.Shell.Source

/-!
# What names stand for

A name where a command is expected may be a keyword, an alias, a function, a command of the shell or a
program. The module holds the names of the commands of the shell and the commands that tell what
a name stands for.
-/

set_option autoImplicit false

namespace StepScript.Shell.Builtin

/-! ## Names -/

/-- The commands whose faults end a script, and in front of which assignments last. -/
def specialNames : List String :=
  [".", ":", "break", "continue", "eval", "exec", "exit", "export", "local", "readonly", "return",
    "set", "shift", "times", "trap", "unset"]

def plainNames : List String :=
  ["[", "alias", "bg", "cd", "chdir", "command", "echo", "false", "fg", "getopts", "hash", "jobs",
    "kill", "printf", "pwd", "read", "test", "true", "type", "ulimit", "umask", "unalias", "wait"]

def assignmentNames : List String :=
  ["alias", "export", "local", "readonly"]

def isAmong (name : Bytes) (names : List String) : Bool :=
  names.any fun n => n.toList == name

def isBuiltin (name : Bytes) : Bool :=
  isAmong name specialNames || isAmong name plainNames

/-! ## Meanings -/

/-- What a name stands for where a command is expected. -/
inductive Meaning where
  | keyword
  | alias' (value : Bytes)
  | function (line : Nat) (body : Command)
  | builtin (special : Bool)
  /-- A program at a path, and whether it was found before. -/
  | program (path : Bytes) (known : Bool)
  | unknown

/-- What a name stands for that is no keyword and no alias. Special commands come first, and
functions come in front of all others. -/
def meaningOf (path name : Bytes) (functions : Bool) : Act Meaning := do
  if isAmong name specialNames then return .builtin true
  let s ← Act.shell
  match if functions then s.functions.lookup name else none with
  | some (line, body) => return .function line body
  | none =>
    if isAmong name plainNames then return .builtin false
    else if name.contains '/' then
      return match ← Act.entry? name with
        | some (_, .file (.program _)) => .program name false
        | _ => .unknown
    else
      match s.found.lookup name with
      | some place => return .program place true
      | none =>
        return match ← Act.findProgram? path name with
          | some place => .program place false
          | none => .unknown

def fullMeaning (path name : Bytes) : Act Meaning := do
  if (Keyword.ofText? name).isSome then return .keyword
  match (← Act.shell).aliases.lookup name with
  | some value => return .alias' value
  | none => meaningOf path name true

/-- It is told what a name stands for, in a sentence or as it could be used. The answer is the
status. -/
def tell (sentence : Bool) (path name : Bytes) : Act Nat := do
  let say (text : String) : Act Nat := do
    Act.emit (if sentence then name ++ text.toList ++ ['\n'] else name ++ ['\n'])
    return 0
  match ← fullMeaning path name with
  | .keyword => say " is a shell keyword"
  | .alias' value =>
    if sentence then Act.emit (name ++ " is an alias for ".toList ++ value ++ ['\n'])
    else
      Act.emit "alias ".toList
      showAlias (name, value)
    return 0
  | .function _ _ => say " is a shell function"
  | .builtin special => say (if special then " is a special shell builtin" else " is a shell builtin")
  | .program place known =>
    if sentence then
      Act.emit (name ++ (if known then " is a tracked alias for ".toList else " is ".toList))
    Act.emit (place ++ ['\n'])
    return 0
  | .unknown =>
    if sentence then Act.emit (name ++ ": not found\n".toList)
    return 127

def type' (args : List Bytes) : Act Nat := do
  let path ← Act.searchPath
  let mut status := 0
  for name in args do
    status := status ||| (← tell true path name)
  return status

/-- It is told what a name stands for, or nothing is done. -/
def command (args : List Bytes) : Act Nat := do
  let s ← Act.switches "pvV" args
  let has (c : Char) : Bool := s.given.any (·.1 == c)
  let path ← if has 'p' then pure "/usr/sbin:/usr/bin:/sbin:/bin".toList else Act.searchPath
  match s.operands with
  | name :: _ => if has 'v' || has 'V' then tell (has 'V') path name else return 0
  | [] => return 0

/-- Where programs were found is shown, looked up or forgotten. -/
def hash (args : List Bytes) : Act Nat := do
  let s ← Act.switches "r" args
  if !s.given.isEmpty then
    Act.change fun s => { s with found := [] }
    return 0
  if s.operands.isEmpty then
    let elsewhere := (← Act.shell).foundElsewhere
    for (name, place) in inOrder 31 (← Act.shell).found do
      Act.emit (place ++ (if elsewhere.contains name then ['*'] else []) ++ ['\n'])
    return 0
  let path ← Act.searchPath
  let mut status := 0
  for name in s.operands do
    let isFunction := (← Act.shell).functions.any (·.1 == name)
    if !isBuiltin name && !isFunction && !name.contains '/' then
      match ← Act.findProgram? path name with
      | some place => Act.remember name place
      | none =>
        Act.warnMissing path name
        status := 1
  return status

end StepScript.Shell.Builtin
