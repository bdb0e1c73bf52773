import StepScript.Shell.State

/-!
# Files of a shell

How a shell finds, opens and makes files. A path that does not start at the root starts at the
folder of the shell.
-/

set_option autoImplicit false

namespace StepScript.Shell

/-- What the system says of a fault, without its number. -/
def faultText : FileFault → String
  | .notFound => "No such file or directory"
  | .isFolder => "Is a directory"
  | .notFolder => "Not a directory"
  | .notText => "Bad file descriptor"
  | .denied => "Permission denied"
  | .nameTooLong => "File name too long"
  | .zeroInName => "Invalid argument"

namespace Act

def place (name : Bytes) : Act (Except FileFault Location) := do
  let m ← get
  let p := FilePath.ofText name
  if name.isEmpty then return .error .notFound
  match m.world.files.locate (if p.absolute then [] else m.shell.folder) p.steps with
  | .error fault => return .error fault
  | .ok l =>
    match p.asFolder, m.world.files.lookup? l with
    | true, some (.file _) => return .error .notFolder
    | _, _ => return .ok l

def entry? (name : Bytes) : Act (Option (Location × Entry FileKind)) := do
  match ← place name with
  | .error _ => return none
  | .ok l => return ((← get).world.files.lookup? l).map fun e => (l, e)

def isFolder (name : Bytes) : Act Bool := do
  return match ← entry? name with
    | some (_, .folder) => true
    | _ => false

/-- What a file is to those who ask. -/
inductive FileSort where
  | folder
  | plain (size : Nat) (isProgram : Bool)
  | device
  | pipe
deriving DecidableEq

def streamSort (w : World) (stream : Nat) : FileSort :=
  match w.streams[stream]? with
  | some (.file l ..) =>
    match w.files.lookup? l with
    | some (.file (.data bytes)) => .plain bytes.length false
    | some (.file _) => .plain 4096 true
    | some .folder => .folder
    | none => .plain 0 false
  | some (.device ..) => .device
  | _ => .pipe

/-- What stands at a path. A name for a channel stands for what the channel leads to. -/
def sort? (name : Bytes) : Act (Option FileSort) := do
  match ← entry? name with
  | none => return none
  | some (_, .folder) => return some .folder
  | some (_, .file (.data bytes)) => return some (.plain bytes.length false)
  | some (_, .file (.program _)) => return some (.plain 4096 true)
  | some (_, .file (.device _)) => return some .device
  | some (_, .file (.channel n)) =>
    match ← stream? n with
    | none => return none
    | some stream => return some (streamSort (← get).world stream)

def openKind (l : Location) (k : FileKind) (mode : FileMode) : Act (Except FileFault Nat) := do
  let reads := mode == .read || mode == .readWrite
  let writes := mode != .read
  let fresh (s : Stream) : Act (Except FileFault Nat) :=
    modifyGet fun m =>
      let (n, world) := m.world.openStream s
      (.ok n, { m with world })
  match k with
  | .data _ | .program _ => fresh (.file l 0 reads writes (mode == .append))
  | .device .terminal => return .error .notFound
  | .device d => fresh (.device d reads writes)
  | .channel n =>
    match ← stream? n with
    | some s => return .ok s
    | none => return .error .notFound

/-- A stream for a file. Unless the file is only read, it is made if it is not there. -/
def openFile (name : Bytes) (mode : FileMode) : Act (Except FileFault Nat) := do
  match ← place name with
  | .error fault => return .error fault
  | .ok l =>
    match (← get).world.files.lookup? l with
    | some .folder =>
      if mode == .read then
        modifyGet fun m =>
          let (n, world) := m.world.openStream (.file l 0 true false false)
          (.ok n, { m with world })
      else return .error .isFolder
    | some (.file k) =>
      match k, mode with
      | .data _, .write | .data _, .overwrite =>
        changeWorld fun w => { w with files := w.files.put l (.file (.data [])) }
      | _, _ => pure ()
      openKind l k mode
    | none =>
      if mode == .read then return .error .notFound
      else if (FilePath.ofText name).asFolder then return .error .isFolder
      else
        changeWorld fun w => { w with files := w.files.put l (.file (.data [])) }
        openKind l (.data []) mode

def readAll (stream : Nat) : Act (Option Bytes) := do
  match (← get).world.read? stream (Nat.pow 2 62) with
  | none => return none
  | some (bytes, ready, world) =>
    modify fun m => { m with world, shell := { m.shell with clock := max m.shell.clock ready } }
    return some bytes

/-- The next byte of a channel, or nothing at the end. A channel that cannot be read gives
neither. -/
def readByte (channel : Nat) : Act (Option (Option Char)) := do
  match ← stream? channel with
  | none => return none
  | some stream =>
    match (← get).world.read? stream 1 with
    | none => return none
    | some (bytes, ready, world) =>
      modify fun m => { m with world, shell := { m.shell with clock := max m.shell.clock ready } }
      return some bytes.head?

def readFile (name : Bytes) : Act (Except FileFault Bytes) := do
  match ← openFile name .read with
  | .error fault => return .error fault
  | .ok stream => return .ok ((← readAll stream).getD [])

/-! ## Programs -/

def folders : Bytes → List Bytes
  | [] => [[]]
  | c :: s =>
    if c = ':' then [] :: folders s
    else
      match folders s with
      | [] => [[c]]
      | p :: rest => (c :: p) :: rest

/-- Where a name leads in a folder, which is the folder of the shell if it has no name. -/
def inFolder (folder name : Bytes) : Bytes :=
  if folder.isEmpty then name else folder ++ '/' :: name

/-- Where a program is found that is named without a slash: in the first folder of the path that has
it. -/
def findProgram? (path name : Bytes) : Act (Option Bytes) := do
  for folder in folders path do
    match ← entry? (inFolder folder name) with
    | some (_, .file (.program _)) => return some (inFolder folder name)
    | _ => pure ()
  return none

def findsOther (path name : Bytes) : Act Bool := do
  for folder in folders path do
    if (← entry? (inFolder folder name)).isSome then return true
  return false

def remember (name place : Bytes) : Act Unit :=
  change fun s =>
    { s with
      found := assocPut name place s.found
      foundElsewhere := s.foundElsewhere.filter (· != name) }

def warnMissing (path name : Bytes) : Act Unit := do
  let reason := if ← findsOther path name then "Permission denied" else "not found"
  warn (name ++ ": ".toList ++ reason.toList)

def searchPath : Act Bytes :=
  return (← value? "PATH".toList).getD []

end Act

end StepScript.Shell
