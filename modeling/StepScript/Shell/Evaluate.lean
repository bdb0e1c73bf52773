import StepScript.Shell.Builtin
import StepScript.Shell.Redirect

/-!
# Running commands

What every kind of command does. A command runs others only through the function `run` that it is
given, so a step is defined without recursion; the recursion, with a bound for it, stands at the end.

Where a script is told to stop after a failure, it stops behind a simple command, a pipeline or a
subshell that failed, unless the status of that is looked at.
-/

set_option autoImplicit false

namespace StepScript.Shell

namespace Act

/-! ## Words of a simple command -/

/-- The words of a simple command, some of which are not expanded yet. -/
structure Words where
  /-- The words that are expanded. -/
  done : List Bytes
  rest : List Word
  /-- How many words stand in front of the name of the command. -/
  lead : Nat
  /-- Where programs are looked for, if not where they usually are. -/
  path : Option Bytes
  /-- Whether the command may be a function. -/
  functions : Bool

/-- What a simple command turns out to be. -/
structure Call where
  /-- All words, to be traced. -/
  traced : List Bytes
  /-- The name and the arguments. -/
  words : List Bytes
  path : Option Bytes
  functions : Bool
  /-- Whether a command of the shell is called, and whether faults in it end the script. -/
  special : Option Bool
  /-- Whether assignments are undone behind the command. -/
  undone : Bool
  /-- Whether redirections stay. -/
  lasting : Bool

def fillTo (run : Runner) (place : Nat) (w : Words) : Act Words := do
  let (done, rest) ← go w.done w.rest
  return { w with done, rest }
where
  /-- Words behind those that are expanded, up to the place. -/
  go (done : List Bytes) : List Word → Act (List Bytes × List Word)
    | [] => return (done, [])
    | w :: rest => do
      if place < done.length then return (done, w :: rest)
      else go (done ++ (← expandFields run w)) rest

/-- The words behind `command` and its options, if another command follows them. -/
def behindCommand (run : Runner) : Nat → Nat → Words → Act (Option Words)
  | 0, _, _ => throw .bound
  | fuel + 1, place, w => do
    let w ← fillTo run place w
    match w.done[place]? with
    | none => return none
    | some ['-', '-'] =>
      let w ← fillTo run (place + 1) w
      return if place + 1 < w.done.length then some { w with lead := place + 1 } else none
    | some ('-' :: c :: letters) =>
      if (c :: letters).all (· == 'p') then
        behindCommand run fuel (place + 1) { w with path := some defaultPath }
      else return none
    | some _ => return some { w with lead := place }

/-- Whether a word is the name of a command of the shell, which functions may hide. -/
def isBuiltinHere (functions : Bool) (name : Bytes) : Act Bool := do
  if Builtin.isAmong name Builtin.specialNames then return true
  if functions && (← shell).functions.any (·.1 == name) then return false
  return Builtin.isAmong name Builtin.plainNames

/-- The call that words stand for that are expanded up to the name of a command. -/
def callOf (run : Runner) : Nat → Option Bool → Words → Act Call
  | 0, _, _ => throw .bound
  | fuel + 1, special, w => do
    let name := w.done[w.lead]?.getD []
    let finish (isBuiltin : Bool) (special : Option Bool) : Act Call := do
      let assigns := isBuiltin && Builtin.isAmong name Builtin.assignmentNames
      let more ← w.rest.mapM fun word => do
        if assigns && word.isAssignment then return [← expandText run .assign word]
        else expandFields run word
      let traced := w.done ++ more.flatten
      return {
        traced
        words := traced.drop w.lead
        path := w.path
        functions := w.functions
        special
        undone := special != some true
        lasting := isBuiltin && name == "exec".toList }
    if !(← isBuiltinHere w.functions name) then finish false special
    else
      let special := special <|> some (Builtin.isAmong name Builtin.specialNames)
      if name != "command".toList then finish true special
      else
        match ← behindCommand run Parse.limit (w.lead + 1) w with
        | none => finish true special
        | some w => callOf run fuel special { w with functions := false }

/-! ## Traces -/

def traceMark (run : Runner) : Act Bytes := do
  let text := (← value? "PS4".toList).getD []
  -- No line of the text ends it, so it is read as a document without an end.
  let read : Parse Word := do
    let (w, _) ← Parse.word (Parse.commandsIn Parse.limit) .double
      (some ⟨[Char.ofNat markBase], false⟩) (← Parse.next)
    return w.pieces.reverse
  match read (.start text (← shell).documents []) with
  | .ok word _ =>
    match ← attempt (expandText run .document word) with
    | .ok text => return text
    | .error .fault => return text
    | .error stop => throw stop
  | .error _ _ => return text

def trace (run : Runner) (stream : Option Nat) (words : List Bytes) : Act Unit := do
  if (← hasOption 'x') && !(← shell).tracing then
    change fun s => { s with tracing := true }
    let mark ← traceMark run
    change fun s => { s with tracing := false }
    if let some stream := stream then
      let _ ← writeTo stream (mark ++ [' '].intercalate words ++ ['\n'])

/-! ## Simple commands -/

/-- How many functions may run, one inside of the other. -/
def mostCalls : Nat := 1000

/-- A function runs with arguments. A call beyond the limit goes on counting as one that runs. -/
def callFunction (run : Runner) (role : Role) (body : Command) (args : List Bytes) : Act Nat := do
  change fun s => { s with calls := s.calls + 1 }
  let before ← shell
  if mostCalls < before.calls then
    fault ("Maximum function recursion depth (".toList ++ Bytes.ofNat mostCalls ++
      ") reached".toList)
  setParams args
  change fun s => { s with loops := 0 }
  let outcome ← attempt (run role.inner body)
  change fun s =>
    { s with
      calls := s.calls - 1
      params := before.params
      nextOption := before.nextOption
      optionOffset := before.optionOffset
      loops := before.loops
      skip := match s.skip with
        | .return' _ => .nothing
        | skip => skip }
  again outcome

/-- A program runs, in place of the shell if that does nothing else. -/
def callProgram (run : Runner) (role : Role) (path name : Bytes) (args : List Bytes) : Act Nat := do
  let keeps := (← shell).traps.any (!·.2.isEmpty)
  if role.last && !keeps then execute run path name args
  else waitFor run id (do let _ ← execute run path name args)

def runCall (run : Runner) (role : Role) (c : Call) : Act Nat := do
  match c.words with
  | [] => return (← shell).outputStatus
  | name :: args =>
    let path ← match c.path with
      | some path => pure path
      | none => searchPath
    match c.special with
    | some special =>
      if ← isBuiltinHere c.functions name then
        return ← runBuiltin run role special name args
    | none => pure ()
    let functions := (← shell).functions
    match if c.functions then functions.lookup name else none with
    | some (_, body) => callFunction run role body args
    | none =>
      if name.contains '/' then callProgram run role path name args
      else
        match (← shell).found.lookup name <|> (← findProgram? path name) with
        | some place =>
          remember name place
          callProgram run role path name args
        | none =>
          warnMissing path name
          return 127

/-- Variables that were hidden since so many scopes were open are seen again. -/
def closeScopes (depth : Nat) : Act Unit := do
  for _ in List.range ((← shell).hidden.length - depth) do
    closeScope

def assignAll (run : Runner) (c : Call) (assignments : List Word) : Act (List Bytes) := do
  let isCall := !c.words.isEmpty
  let exports := c.lasting && 1 < c.words.length
  assignments.mapM fun w => do
    let text ← expandText run .assign w
    let (name, value) := splitAssignment text
    if isCall && c.undone then hide name value true
    else put name (value.getD []) exports false
    return text

def runSimple (run : Runner) (role : Role) (line : Nat) (assignments words : List Word)
    (redirections : List Redirection) : Act Nat := do
  change fun s => { s with line, outputStatus := 0 }
  let w ← fillTo run 0 ⟨[], words, 0, none, true⟩
  let call ←
    if w.done.isEmpty then pure ⟨[], [], none, true, none, true, false⟩
    else callOf run Parse.limit none w
  let targets ← redirections.mapM fun r => return (r.channel, ← target run r)
  let depth := (← shell).hidden.length
  if !call.words.isEmpty && call.undone then openScope
  let errors ← stream? 2
  let before ← channelsNow (targets.map (·.1))
  let outcome ← attempt do
    if !(← redirectAll run targets) then
      setStatus 2
      if call.special == some true then throw .fault
      return 2
    let assigned ← assignAll run call assignments
    trace run errors (assigned ++ call.traced)
    runCall run role call
  match outcome with
  | .ok status =>
    if !call.lasting then restore before
    closeScopes depth
    return status
  | .error stop =>
    if stop ≠ .bound then restore before
    throw stop

/-! ## Other commands -/

/-- Whether a loop goes on after a part of it, whether the part is the last one of its turn, and
what is passed over from there. -/
def afterTurn (skip : Skip) : Bool × Skip :=
  match skip with
  | .nothing => (true, .nothing)
  | .leave n => (false, if n ≤ 1 then .nothing else .leave (n - 1))
  | .again n => if n ≤ 1 then (true, .nothing) else (false, .again (n - 1))
  | .return' given => (false, .return' given)

/-- A part of a turn of a loop has come to its end. The answers are whether the loop goes on, and
whether the rest of the turn is passed over. -/
def endPart : Act (Bool × Bool) := do
  let skip := (← shell).skip
  let (goesOn, left) := afterTurn skip
  change fun s => { s with skip := left }
  return (goesOn, skip ≠ .nothing)

def runLoop (run : Runner) (role : Role) (untilSuccess : Bool) (test body : Command) :
    Nat → Nat → Act Nat
  | 0, _ => throw .bound
  | fuel + 1, status => do
    let tested ← run .test test
    let isReturn := match (← shell).skip with
      | .return' _ => true
      | _ => false
    let (goesOn, skipped) ← endPart
    if skipped then
      if goesOn then runLoop run role untilSuccess test body fuel status
      else return if isReturn then tested else status
    else if (tested == 0) == untilSuccess then return status
    else
      let status ← run role.inner body
      let (goesOn, _) ← endPart
      if goesOn then runLoop run role untilSuccess test body fuel status else return status

def runEach (run : Runner) (role : Role) (name : Bytes) (body : Command) :
    List Bytes → Nat → Act Nat
  | [], status => return status
  | word :: rest, _ => do
    assign name word
    let status ← run role.inner body
    let (goesOn, _) ← endPart
    if goesOn then runEach run role name body rest status else return status

def inLoop (body : Act Nat) : Act Nat := do
  change fun s => { s with loops := s.loops + 1 }
  let status ← body
  change fun s => { s with loops := s.loops - 1 }
  return status

def matchesAny (run : Runner) (s : Bytes) : List Word → Act Bool
  | [] => return false
  | w :: rest => do
    if matchesPattern (← expandPattern run w) s then return true else matchesAny run s rest

def runBranch (run : Runner) (role : Role) (s : Bytes) :
    List (List Word × Option Command) → Act Nat
  | [] => return 0
  | (patterns, body) :: rest => do
    if !(← matchesAny run s patterns) then runBranch run role s rest
    else
      match body with
      | none => return 0
      | some c => if (← shell).skip = .nothing then run role c else return 0

def runSubshell (run : Runner) (role : Role) (line : Nat) (body : Command)
    (redirections : List Redirection) : Act Nat := do
  change fun s => { s with line }
  let targets ← redirections.mapM fun r => return (r.channel, ← target run r)
  let inside : Act Unit := do
    targets.forM fun (channel, t) => redirectOne run channel t
    let _ ← run { role with last := true } body
  let keeps := (← shell).traps.any (!·.2.isEmpty)
  if role.last && !keeps then
    inside
    return (← shell).status
  else waitFor run id inside

/-- The program is looked for whose name a stage of a pipeline starts with, so that the shell knows
it afterwards. -/
def lookAhead : Command → Act Unit
  | .simple _ _ (word :: _) _ => do
    let name := (Word.bare? word).getD []
    if isName name && !(← isBuiltinHere true name) &&
        !(← shell).functions.any (·.1 == name) then
      match (← shell).found.lookup name <|> (← findProgram? (← searchPath) name) with
      | some place => remember name place
      | none => pure ()
  | _ => return

def runPipeline (run : Runner) (role : Role) (stages : List Command) : Act Ending := do
  stages.forM lookAhead
  let _ ← jobNumber
  let (_, ending, ends) ← runStages run role none stages
  waitUntil ends
  return ending

def runBackground (run : Runner) (redirections : List Redirection) (body : Act Unit) :
    Act Nat := do
  let targets ← redirections.mapM fun r => return (r.channel, ← target run r)
  inBackground run id do
    targets.forM fun (channel, t) => redirectOne run channel t
    body
  return 0

/-! ## Steps -/

/-- What a command does, and whether a failure of it may end the script. -/
def dispatch (run : Runner) (role : Role) : Command → Act (Nat × Bool)
  | .simple line assignments words redirections => do
    return (← runSimple run role line assignments words redirections, true)
  | .redirected line body redirections => do
    change fun s => { s with line }
    -- A failure of a redirection counts, one of the body was looked at there.
    let targets ← redirections.mapM fun r => return (r.channel, ← target run r)
    let before ← channelsNow (targets.map (·.1))
    let outcome ← attempt do
      if ← redirectAll run targets then return (← run role.inner body, false)
      else return (2, true)
    restore before
    again outcome
  | .subshell line body redirections => do
    return (← runSubshell run role line body redirections, true)
  | .background body redirections => do
    let status ← runBackground run redirections do
      let _ ← run ⟨false, true⟩ body
    return (status, true)
  | .pipeline stages false => do
    let ending ← runPipeline run role stages
    tellEnding ending
    return (ending.status, true)
  | .pipeline stages true => do
    let status ← runBackground run [] do
      match ← runPipeline run role stages with
      | .exited status => setStatus status
      | .killed n => throw (.signal n)
    return (status, true)
  | .sequence first second => do
    let status ← run role.inner first
    if (← shell).skip ≠ .nothing then return (status, false) else return (← run role second, false)
  | .both first second => do
    let status ← run .test first
    if status ≠ 0 || (← shell).skip ≠ .nothing then return (status, false)
    else return (← run role second, false)
  | .either first second => do
    let status ← run .test first
    if status = 0 || (← shell).skip ≠ .nothing then return (status, false)
    else return (← run role second, false)
  | .negated body => do
    return (if (← run .test body) = 0 then 1 else 0, false)
  | .branch test body otherwise => do
    let status ← run .test test
    if (← shell).skip ≠ .nothing then return (status, false)
    else if status = 0 then return (← run role body, false)
    else
      match otherwise with
      | some c => return (← run role c, false)
      | none => return (0, false)
  | .loop untilSuccess test body => do
    return (← inLoop (runLoop run role untilSuccess test body Parse.limit 0), false)
  | .each line name words body => do
    change fun s => { s with line }
    let words ← expandArguments run words
    return (← inLoop (runEach run role name body words 0), false)
  | .select line subject branches => do
    change fun s => { s with line }
    let text ← expandText run .path subject
    return (← runBranch run role text branches, false)
  | .define line name body => do
    change fun s => { s with functions := assocPut name (line, body) s.functions }
    return (0, false)

/-- A command runs, and actions for signals that arrived run around it. -/
def step (run : Runner) : Runner := fun role c => do
  if ← hasOption 'n' then return 0
  runActions run
  let (status, counts) ← dispatch run role c
  setStatus status
  runActions run
  if counts && status ≠ 0 && !role.tested && (← hasOption 'e') then throw .done
  return status

end Act

/-- Commands run with others inside of others at most so deep. What goes deeper is killed, since it
uses up its memory. -/
def evaluate : Nat → Runner
  | 0 => fun _ _ => throw (.signal 11)
  | fuel + 1 => Act.step (evaluate fuel)

end StepScript.Shell
