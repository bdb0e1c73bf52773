import StepScript.Shell.Expansion
import StepScript.Shell.File

/-!
# Redirections

Before a command runs, its channels may be made to lead elsewhere. All words of its redirections are
expanded first, and then one file after another is opened. Behind the command the channels lead where
they led before.
-/

set_option autoImplicit false

namespace StepScript.Shell

/-! ## Ready redirections -/

inductive Target where
  | file (mode : FileMode) (name : Bytes)
  /-- What another channel leads to, or nothing. -/
  | copy (source : Option Nat)
  | document (number : Nat)

def Redirection.channel : Redirection → Nat
  | .file channel .. | .copy channel _ | .copyNamed channel _ | .document channel _ => channel

namespace Act

def target (run : Runner) : Redirection → Act Target
  | .file _ mode name => return .file mode (← expandText run .path name)
  | .copy _ source => return .copy source
  | .copyNamed _ word => do
    match Parse.channelOf? (← expandText run .path word) with
    | some source => return .copy source
    | none =>
      change fun s => { s with line := s.linesRead }
      fault "Syntax error: Bad fd number".toList
  | .document _ number => return .document number

/-! ## Opening -/

def cannotOpen {α : Type} (mode : FileMode) (name : Bytes) (f : FileFault) : Act α := do
  let creates := mode != .read
  let reason : String :=
    match f with
    | .notFound | .notFolder => if creates then "Directory nonexistent" else "No such file"
    | f => faultText f
  faultOf ((if creates then "cannot create " else "cannot open ").toList ++ name) reason

def isPlainFile (name : Bytes) : Act Bool := do
  return match ← entry? name with
    | some (_, .file (.data _)) | some (_, .file (.program _)) => true
    | _ => false

def openTarget (mode : FileMode) (name : Bytes) : Act Nat := do
  if mode == .write && (← hasOption 'C') && (← isPlainFile name) then
    faultOf ("cannot create ".toList ++ name) "File exists"
  match ← openFile name mode with
  | .ok stream => return stream
  | .error f => cannotOpen mode name f

def documentText (run : Runner) (number : Nat) : Act Bytes := do
  match (← shell).documents[number]? with
  | none => return []
  | some d => if d.quoted then return Word.text d.body else expandText run .document d.body

def lead (channel : Nat) (stream : Option Nat) : Act Unit :=
  change fun s =>
    match stream with
    | some stream => connect channel stream s
    | none => { s with channels := s.channels.filter (·.1 != channel) }

def redirectOne (run : Runner) (channel : Nat) : Target → Act Unit
  | .file mode name => do lead channel (some (← openTarget mode name))
  | .copy none => lead channel none
  | .copy (some source) => do
    if source != channel then
      match ← stream? source with
      | some stream => lead channel (some stream)
      | none => faultOf (Bytes.ofNat source) "Bad file descriptor"
  | .document number => do
    let text ← documentText run number
    lead channel (some (← newStream (.queue text 0)))

/-- Channels lead where some redirections say. The answer is whether that went well. -/
def redirectAll (run : Runner) (targets : List (Nat × Target)) : Act Bool := do
  match ← attempt (targets.forM fun (channel, t) => redirectOne run channel t) with
  | .ok () => return true
  | .error .fault => return false
  | .error stop => throw stop

/-! ## Restoring -/

def channelsNow (channels : List Nat) : Act (List (Nat × Option Nat)) := do
  let s ← shell
  return channels.map fun c => (c, s.channels.lookup c)

def restore (before : List (Nat × Option Nat)) : Act Unit :=
  before.forM fun (channel, stream) => lead channel stream

/-- A step runs with redirections, which end with it. If they fail, `failed` runs in its place. -/
def redirected (run : Runner) (redirections : List Redirection) (failed body : Act Nat) :
    Act Nat := do
  let targets ← redirections.mapM fun r => return (r.channel, ← target run r)
  let before ← channelsNow (targets.map (·.1))
  let outcome ← attempt do
    if ← redirectAll run targets then body else failed
  restore before
  again outcome

end Act

end StepScript.Shell
