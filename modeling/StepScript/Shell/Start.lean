import StepScript.Shell.File
import StepScript.Shell.Script
import StepScript.Shell.Setting

/-!
# Starting a shell

A new shell knows the variables of its environment and what its arguments say: options, then a
script or the name of a file with one, then the arguments of the script. Without either it reads the
script from its input.
-/

set_option autoImplicit false

namespace StepScript.Shell

/-! ## New shells -/

def defaultPath : Bytes :=
  "/usr/local/sbin:/usr/local/bin:/usr/sbin:/usr/bin:/sbin:/bin".toList

def locationText (l : Location) : Bytes :=
  if l.isEmpty then ['/'] else l.flatMap ('/' :: ·)

def firstVariables (folder : Bytes) (parent : Nat) (environment : List (Bytes × Bytes)) :
    List (Bytes × Variable) :=
  let set (name : String) (value : Bytes) (vars : List (Bytes × Variable)) :
      List (Bytes × Variable) :=
    Act.assocPut name.toList ⟨some value, ((vars.lookup name.toList).map (·.exported)).getD false,
      false⟩ vars
  let given : List (Bytes × Variable) :=
    environment.filterMap fun (name, value) =>
      if isName name then some (name, ⟨some value, true, false⟩) else none
  let defaults : List (Bytes × Variable) :=
    [("PATH", defaultPath), ("PS1", "# ".toList), ("PS2", "> ".toList), ("PS4", "+ ".toList)].map
      fun (name, value) => (name.toList, ⟨some value, false, false⟩)
  let vars := given ++ defaults.filter fun d => (given.lookup d.1).isNone
  Act.assocPut "PWD".toList ⟨some folder, true, false⟩
    (set "IFS" [' ', '\t', '\n'] (set "OPTIND" ['1'] (set "PPID" (Bytes.ofNat parent) vars)))

def State.fresh (process : Nat) (ancestors : List Nat) (name : Bytes)
    (environment : List (Bytes × Bytes)) (channels : List (Nat × Nat)) (folder : Location)
    (mask clock : Nat) : State where
  process
  script := process
  ancestors
  name
  params := []
  nextOption := 1
  optionOffset := none
  vars := firstVariables (locationText folder) (ancestors.headD 0) environment
  hidden := []
  functions := []
  aliases := []
  found := []
  foundElsewhere := []
  options := []
  traps := []
  arrived := []
  channels
  folder
  folderName := (locationText folder)
  mask
  status := 0
  outputStatus := 0
  endStatus := none
  skip := .nothing
  loops := 0
  calls := 0
  line := 0
  linesRead := 1
  command := none
  jobs := []
  lastJob := none
  buffer := []
  documents := #[]
  clock
  tracing := false

/-! ## Arguments -/

namespace Act

def inputScript : Act Bytes := do
  match ← stream? 0 with
  | none => return []
  | some stream => return (← readAll stream).getD []

def runArguments (run : Runner) (args : List Bytes) : Act Unit := do
  let settings ← readSettings true args.length args
  let named (name : Bytes) (params : List Bytes) : Act Unit :=
    change fun s => { s with name, params }
  match settings.hasCommand, settings.rest with
  | true, [] => fault "-c requires an argument".toList
  | true, script :: rest =>
    match rest with
    | [] => pure ()
    | name :: params => named name params
    let fromInput ← hasOption 's'
    let _ ← runText run .step script
    if fromInput && (← shell).skip = .nothing then
      let _ ← runFile run (← inputScript)
  | false, [] =>
    setOption 's' true
    let _ ← runFile run (← inputScript)
  | false, name :: params =>
    if ← hasOption 's' then
      change fun s => { s with params := name :: params }
      let _ ← runFile run (← inputScript)
    else
      match ← readFile name with
      | .error f =>
        faultOf ("cannot open ".toList ++ name) (match f with
          | .notFound | .notFolder => "No such file"
          | f => faultText f)
      | .ok script =>
        named name params
        let _ ← runFile run script

def become (run : Runner) (name : Bytes) (args : List Bytes)
    (environment : List (Bytes × Bytes)) : Act Ending := do
  change fun s =>
    State.fresh s.process s.ancestors name environment s.channels s.folder s.mask s.clock
  finish run (← attempt (runArguments run args))

end Act

end StepScript.Shell
