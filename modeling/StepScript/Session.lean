import StepScript.Run.Drive

/-!
# Sessions

A **session** is an editor with a disk and an engine, and a log of everything that was sent to the
device or told to somebody. An **action** is one thing a user does in it. What the device does is
planned ahead, call by call; in a plan it may even act itself while it is called.

A run that is started while the device is called finds the engine busy. So a plan need not say what
happens in such a run.
-/

set_option autoImplicit false

namespace StepScript

/-! ## Actions and answers -/

/-- One thing that is done in a session. -/
inductive Action where
  -- The editor.
  | switchMode (mode : EditorMode)
  | toggleMode
  | setText (text : List Char)
  | append (c : Command)
  | insert (c : Command) (index : Nat)
  | remove (index : Nat)
  | reorder (start target : Nat)
  | dropBlock (start boundary : Nat)
  | updateParam (index : Nat) (name value : List Char)
  | beginEdit
  | endEdit
  | lock
  | unlock
  | mark (m : LineMark)
  | clearMark
  -- What the editor says and shows.
  | commands
  | header
  | shownText
  | blocks
  -- Styles.
  | editLayers (edits : List Layers.Edit)
  | highlight (layer : Nat) (sheet : StyleSheet) (rules : List RuleText)
  /-- The built-in highlighter runs, whatever language the editor has. -/
  | highlightStandard
  | layer (n : Nat)
  | stylesIn (start stop : Nat)
  -- The buffer and the disk.
  | subscribe (name : Subscriber)
  | dispose
  | save
  | forceSave
  | reload
  | advance (ms : Nat)
  | readDisk (p : FilePath)
  | writeDisk (p : FilePath) (text : List Char)
  | writeDiskBytes (p : FilePath) (bytes : List UInt8)
  | makeFolder (p : FilePath)
  | removeFromDisk (p : FilePath)
  -- The engine.
  | cancel
  | runState
  | run (ctx : RunContext)
  | runLine (ctx : RunContext) (line : Nat) (text : List Char)

inductive Answer where
  | done
  /-- Whether something changed or was found. -/
  | flag (b : Bool)
  | refused (e : EditError)
  | marked (outcome : MarkOutcome)
  | commands (cs : List Command)
  | header (h : Header)
  | text (s : List Char)
  | blocks (bs : List Block)
  | intervals (xs : List Interval)
  | invalidPattern
  | bufferFailed (e : BufferError)
  /-- The text of a file, if it has one. -/
  | file (s : Option (List Char))
  | running (b : Bool)
  | rejected (cause : Rejection)
  | ended (outcome : Outcome)
  /-- The run waited for ever and was given up. -/
  | abandoned
  /-- The program broke off, since an index went beyond the range. -/
  | brokenOff

inductive LogEntry where
  | delivered (d : Delivery)
  | observed (o : Observation)
  /-- The device is called with a line. -/
  | dispatch (target : Target) (text : List Char)
  /-- The device is called for a refresh. -/
  | refresh
  /-- An action took place inside a call, and left the editor locked or not. -/
  | acted (answer : Answer) (locked : Bool)

/-! ## Plans -/

/-- What the device does in one call. -/
structure Call where
  /-- What is done in the session meanwhile. -/
  actions : List Action
  /-- Whether the call never returns. -/
  hangs : Bool
  reply : Reply

def Call.plain : Call := ⟨[], false, Reply.success⟩

/-- What the device does in the calls of one run. Both kinds are counted from one, and calls that
are not mentioned are plain. -/
structure Plan where
  dispatches : List (Nat × Call)
  refreshes : List (Nat × Call)

def Plan.plain : Plan := ⟨[], []⟩

/-! ## Sessions -/

structure Session where
  stage : Stage
  disk : Disk
  /-- Whether the log tells what observers are told. -/
  observing : Bool
  /-- How many lines the current run sent. -/
  dispatches : Nat
  /-- How many refreshes the current run asked for. -/
  refreshes : Nat
  log : List LogEntry

namespace Session

def editor (s : Session) : Editor :=
  s.stage.editor

def note (s : Session) (entry : LogEntry) : Session :=
  { s with log := s.log ++ [entry] }

/-- A session with another stage, in which everything that the stage has to tell is in the log. -/
def setStage (stage : Stage) (s : Session) : Session :=
  { s with
    stage := { stage with observed := [], editor := stage.editor.mapBuffer .forgetDelivered }
    log := s.log ++ (if s.observing then stage.observed.map .observed else []) ++
      stage.editor.buffer.delivered.map .delivered }

def setEditor (s : Session) (editor : Editor) : Session :=
  s.setStage { s.stage with editor }

def setBuffer (s : Session) (buffer : Buffer) : Session :=
  s.setEditor (s.editor.mapBuffer fun _ => buffer)

def ofEditor (options : EngineOptions) (observing : Bool) (disk : Disk) (editor : Editor) :
    Session :=
  ⟨⟨editor, .idle options, []⟩, disk, observing, 0, 0, []⟩

def clearLog (s : Session) : Session :=
  { s with log := [] }

def advance (s : Session) (ms : Nat) : Session :=
  let (buffer, disk) := s.editor.buffer.advance s.disk ms
  { s with disk }.setBuffer buffer

/-! ## Doing things -/

def edited (s : Session) (answer : Bool → Answer) :
    Editor × Except EditError Bool → Session × Answer
  | (editor, .ok changed) => (s.setEditor editor, answer changed)
  | (editor, .error .overflow) => (s.setEditor editor, .brokenOff)
  | (editor, .error e) => (s.setEditor editor, .refused e)

def styled (s : Session) : Editor × Bool → Session × Answer
  | (editor, changed) => (s.setEditor editor, .flag changed)

def filed (s : Session) (r : Buffer.FileResult) : Session × Answer :=
  ({ s with disk := r.disk }.setBuffer r.buffer,
    match r.outcome with
    | .ok () => .done
    | .error e => .bufferFailed e)

def stored (s : Session) : Option Disk → Session × Answer
  | some disk => ({ s with disk }, .flag true)
  | none => (s, .flag false)

/-- A session after a run, of which the first turn is given. `meet` says how requests are met. -/
def driven (meet : Request → Session → Session × Option Reply) (s : Session) :
    Stage × Except Rejection Progress → Session × Answer
  | (stage, .error cause) => (s.setStage stage, .rejected cause)
  | (stage, .ok progress) =>
    let w : Surroundings Session := ⟨Session.stage, setStage, meet⟩
    match w.drive ({ s with dispatches := 0, refreshes := 0 }.setStage stage) progress with
    | (s, some outcome) => (s, .ended outcome)
    | (s, none) => (s, .abandoned)

def act (meet : Request → Session → Session × Option Reply) (s : Session) :
    Action → Session × Answer
  | .switchMode mode => (s.setEditor (s.editor.switchMode mode), .done)
  | .toggleMode => (s.setEditor s.editor.toggleMode, .done)
  | .setText text =>
    let (editor, outcome) := s.editor.setText text
    s.edited (fun _ => .done) (editor, outcome.map fun _ => true)
  | .append c => s.edited (fun _ => .done) (s.editor.append c)
  | .insert c index => s.edited (fun _ => .done) (s.editor.insert c index)
  | .remove index => s.edited (fun _ => .done) (s.editor.remove index)
  | .reorder start target => s.edited .flag (s.editor.reorder start target)
  | .dropBlock start boundary => s.edited .flag (s.editor.dropBlock start boundary)
  | .updateParam index name value =>
    s.edited (fun _ => .done) (s.editor.updateParam index name value)
  | .beginEdit =>
    match s.editor.beginEdit with
    | .ok editor => (s.setEditor editor, .done)
    | .error e => (s, .refused e)
  | .endEdit => (s.setEditor s.editor.endEdit, .done)
  | .lock => (s.setEditor s.editor.lock, .done)
  | .unlock => (s.setEditor s.editor.unlock, .done)
  | .mark m =>
    let (editor, outcome) := s.editor.highlight m
    (s.setEditor editor, .marked outcome)
  | .clearMark => (s.setEditor s.editor.clearHighlight, .done)
  | .commands => (s, .commands s.editor.commands)
  | .header => (s, .header s.editor.header)
  | .shownText => (s, .text s.editor.textView.text)
  | .blocks => (s, .blocks s.editor.blockView.blocks)
  | .editLayers edits => s.styled (s.editor.editLayers edits)
  | .highlight layer sheet rules =>
    match Highlighter.ofTexts? s.editor.language sheet rules with
    | none => (s, .invalidPattern)
    | some h => s.styled (s.editor.runHighlighter layer h)
  | .highlightStandard => s.styled (s.editor.runHighlighter syntaxLayer .standard)
  | .layer n => (s, .intervals (s.editor.textView.layer n))
  | .stylesIn start stop => (s, .intervals (s.editor.textView.stylesIn start stop))
  | .subscribe name => (s.setBuffer (s.editor.buffer.subscribe name), .done)
  | .dispose => (s.setBuffer s.editor.buffer.dispose, .done)
  | .save => s.filed (s.editor.buffer.save s.disk)
  | .forceSave => s.filed (s.editor.buffer.forceSave s.disk)
  | .reload =>
    let (buffer, outcome) := s.editor.buffer.reload s.disk
    s.filed ⟨buffer, s.disk, outcome⟩
  | .advance ms => (s.advance ms, .done)
  | .readDisk p => (s, .file (s.disk.read p).toOption)
  | .writeDisk p text => s.stored (s.disk.write p text).toOption
  | .writeDiskBytes p bytes => s.stored (s.disk.writeBytes p bytes).toOption
  | .makeFolder p => s.stored (s.disk.makeFolder? p)
  | .removeFromDisk p => s.stored (s.disk.remove? p)
  | .cancel =>
    let (stage, found) := s.stage.cancel
    (s.setStage stage, .flag found)
  | .runState => (s, .running s.stage.engine.running)
  | .run ctx => s.driven meet (s.stage.runScript ctx)
  | .runLine ctx line text => s.driven meet (s.stage.runLine ctx line text)

/-! ## Calls of the device -/

/-- A session after an action inside a call. A run that is asked for there is rejected, so that its
requests are never met. -/
def actInside (s : Session) (a : Action) : Session :=
  let (s, answer) := s.act (fun _ s => (s, none)) a
  s.note (.acted answer s.editor.locked)

def play (s : Session) (call : Call) : Session × Option Reply :=
  (call.actions.foldl actInside s, if call.hangs then none else some call.reply)

/-- A session in which a request is met as planned, and the reply. -/
def meetPlanned (plan : Plan) : Request → Session → Session × Option Reply
  | .pause ms, s => (s.advance ms, some .success)
  | .dispatch target text, s =>
    let n := s.dispatches + 1
    ({ s with dispatches := n }.note (.dispatch target text)).play
      ((plan.dispatches.lookup n).getD .plain)
  | .refresh, s =>
    let n := s.refreshes + 1
    ({ s with refreshes := n }.note .refresh).play ((plan.refreshes.lookup n).getD .plain)

def perform (s : Session) (plan : Plan) (a : Action) : Session × Answer :=
  s.act (meetPlanned plan) a

end Session

end StepScript
