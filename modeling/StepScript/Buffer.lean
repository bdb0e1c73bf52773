import StepScript.Disk
import StepScript.Text.LineEnding

/-!
# Source buffers

A **buffer** owns the text of one open script. In memory the text has normal line endings; on disk
it has the ending that the file was found with. Every change of the text makes the buffer dirty and
starts a **timer**, at whose end the text is saved; a new change starts the timer afresh.

A save has three steps: it captures the text and its version, it writes the text, and it completes.
Other things may happen between the steps, and a save completes as clean only if the version is
still the one that it captured.

Time is the number of milliseconds that are left on the timer.
-/

set_option autoImplicit false

namespace StepScript

/-! ## Events and errors -/

/-- What a buffer tells its subscribers. -/
inductive BufferEvent where
  /-- The file was read. -/
  | loaded
  /-- The text was replaced. -/
  | changed (version : Nat)
  /-- The text was written. -/
  | saved (file : List Char)
  /-- The text could not be written. -/
  | saveFailed (fault : FileFault)
deriving DecidableEq

/-- Why a file operation of a buffer failed. -/
inductive BufferError where
  | read (file : List Char) (fault : FileFault)
  | write (file : List Char) (fault : FileFault)
deriving DecidableEq

/-- What the user is told, where `root` is the folder that the disk stands for. -/
def BufferError.message (root : String) : BufferError → String
  | .read file fault =>
    "failed to read " ++ root ++ "/" ++ String.ofList file ++ ": " ++ fault.message
  | .write file fault =>
    "failed to write " ++ root ++ "/" ++ String.ofList file ++ ": " ++ fault.message

/-! ## Buffers -/

/-- The name of a subscriber. One name may subscribe more than once. -/
abbrev Subscriber := List Char

/-- An event that a subscriber was told of. -/
structure Delivery where
  subscriber : Subscriber
  event : BufferEvent
deriving DecidableEq

/-- The choices that a buffer is opened with. -/
structure BufferOptions where
  /-- Whether a change starts the timer. -/
  autosave : Bool := true
  /-- How many milliseconds the timer runs. -/
  delay : Nat := 1000
deriving DecidableEq

def BufferOptions.standard : BufferOptions := {}

/-- The text of an open script. -/
structure Buffer where
  options : BufferOptions
  /-- The file, by its name below the root of the disk. -/
  file : List Char
  content : List Char
  /-- How the lines of the file end. -/
  ending : LineEnding
  /-- Whether the text changed since it was last written. -/
  dirty : Bool
  /-- How often the text was replaced. -/
  version : Nat
  /-- The milliseconds until the text is saved. -/
  timer : Option Nat
  subscribers : List Subscriber
  /-- What the subscribers were told, each event once for every subscriber in turn. -/
  delivered : List Delivery
deriving DecidableEq

namespace Buffer

/-- A clean buffer for a file with the given text. Nothing is read. -/
def create (options : BufferOptions) (file raw : List Char) : Buffer where
  options
  file
  content := LineEnding.normalize raw
  ending := LineEnding.detect raw
  dirty := false
  version := 0
  timer := none
  subscribers := []
  delivered := []

def path (b : Buffer) : FilePath :=
  FilePath.ofText b.file

def textOf (d : Disk) (file : List Char) : Except BufferError (List Char) :=
  match d.read (FilePath.ofText file) with
  | .ok raw => .ok raw
  | .error fault => .error (.read file fault)

def load (options : BufferOptions) (file : List Char) (d : Disk) : Except BufferError Buffer :=
  (textOf d file).map (create options file)

/-! ## Changes in memory -/

def emit (b : Buffer) (e : BufferEvent) : Buffer :=
  { b with delivered := b.delivered ++ b.subscribers.map fun name => ⟨name, e⟩ }

def subscribe (b : Buffer) (name : Subscriber) : Buffer :=
  { b with subscribers := b.subscribers ++ [name] }

def forgetDelivered (b : Buffer) : Buffer :=
  { b with delivered := [] }

def stopTimer (b : Buffer) : Buffer :=
  { b with timer := none }

def dispose (b : Buffer) : Buffer :=
  { b with timer := none, subscribers := [] }

/-- A buffer with another text. The timer starts only where time passes, which `timed` says. -/
def update (b : Buffer) (timed : Bool) (text : List Char) : Buffer :=
  { b with
    content := LineEnding.normalize text
    dirty := true
    version := b.version + 1
    timer := if b.options.autosave && timed then some b.options.delay else none }.emit
      (.changed (b.version + 1))

/-! ## The steps of a save -/

structure Snapshot where
  /-- The text as it is written to the file. -/
  text : List Char
  version : Nat
deriving DecidableEq

/-- What a save of this buffer captures; a clean buffer is saved only by force. -/
def capture? (b : Buffer) (force : Bool) : Option Snapshot :=
  if b.dirty || force then some ⟨b.ending.apply b.content, b.version⟩ else none

/-- A buffer after a save whose write went as `written` says. -/
def complete (b : Buffer) (s : Snapshot) (written : Except FileFault Disk) : Buffer :=
  match written with
  | .ok _ => { b with dirty := b.dirty && b.version != s.version }.emit (.saved b.file)
  | .error fault => b.emit (.saveFailed fault)

/-! ## Operations with the disk -/

/-- What is left when an operation with the disk is over. -/
structure FileResult where
  buffer : Buffer
  disk : Disk
  outcome : Except BufferError Unit

/-- The write of a captured text, and the completion of its save. -/
def finish (b : Buffer) (d : Disk) (s : Snapshot) : FileResult :=
  match d.write b.path s.text with
  | .ok d' => ⟨b.complete s (.ok d'), d', .ok ()⟩
  | .error fault => ⟨b.complete s (.error fault), d, .error (.write b.file fault)⟩

def write (b : Buffer) (d : Disk) (force : Bool) : FileResult :=
  match b.capture? force with
  | none => ⟨b, d, .ok ()⟩
  | some s => b.finish d s

/-- A save on demand, which the timer need not do any more. -/
def save (b : Buffer) (d : Disk) : FileResult :=
  b.stopTimer.write d false

/-- A save on demand, of a clean buffer too. -/
def forceSave (b : Buffer) (d : Disk) : FileResult :=
  b.stopTimer.write d true

/-- A save on demand during which the text is replaced, after it was captured and before it is
written. -/
def saveRacing (b : Buffer) (d : Disk) (text : List Char) : FileResult :=
  match b.stopTimer.capture? false with
  | none => ⟨b.stopTimer.update true text, d, .ok ()⟩
  | some s => (b.stopTimer.update true text).finish d s

/-- A buffer with the text of its file, whatever text it had. The timer stops even if the file
cannot be read. -/
def reload (b : Buffer) (d : Disk) : Buffer × Except BufferError Unit :=
  match textOf d b.file with
  | .error e => (b.stopTimer, .error e)
  | .ok raw =>
    ({ b.stopTimer with
      content := LineEnding.normalize raw
      ending := LineEnding.detect raw
      dirty := false
      version := b.version + 1 }.emit .loaded, .ok ())

/-- A buffer and a disk after some milliseconds. When the timer ends, the text is saved; should that
fail, nobody but the subscribers is told. -/
def advance (b : Buffer) (d : Disk) (ms : Nat) : Buffer × Disk :=
  match b.timer with
  | none => (b, d)
  | some left =>
    if left ≤ ms then
      let r := b.stopTimer.write d false
      (r.buffer, r.disk)
    else ({ b with timer := some (left - ms) }, d)

end Buffer

end StepScript
