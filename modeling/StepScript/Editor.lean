import StepScript.Buffer
import StepScript.Index
import StepScript.Script.Edit
import StepScript.Script.Header
import StepScript.Style.Highlighter
import StepScript.View.BlockView
import StepScript.View.TextView

/-!
# The editor

The **editor** shows one buffer in two views, one of which is active. An edit from either view
becomes a new text of the buffer, and the active view is drawn from it again. The editor remembers
the mark that was asked for, and puts it on a view that is drawn anew; a mark that the new text has
no place for is forgotten.

A locked editor refuses every edit. Block edits also exclude one another: each takes the one
**slot** there is, and a gesture that lasts may keep it.
-/

set_option autoImplicit false

namespace StepScript

inductive EditorMode where
  | text | block
deriving DecidableEq

def EditorMode.toggle : EditorMode → EditorMode
  | .text => .block
  | .block => .text

/-- One open script in two views. -/
structure Editor where
  language : Language
  buffer : Buffer
  mode : EditorMode
  textView : TextView
  blockView : BlockView
  /-- Whether edits are refused. -/
  locked : Bool
  /-- The mark that was last asked for. -/
  mark : Option LineMark
  /-- Whether the slot for block edits is taken. -/
  slotTaken : Bool

namespace Editor

/-! ## The active view -/

/-- The mark that the active view shows. -/
def shownMark? (e : Editor) : Option LineMark :=
  match e.mode with
  | .text => e.textView.mark?
  | .block => e.blockView.mark?

def content (e : Editor) : List Char :=
  e.buffer.content

/-- An editor whose active view was asked for a mark, and what became of it. -/
def markActive (e : Editor) (m : LineMark) : Editor × MarkOutcome :=
  match e.mode with
  | .text =>
    let (v, outcome) := e.textView.markLine m
    ({ e with textView := v }, outcome)
  | .block =>
    let (v, outcome) := e.blockView.markLine m
    ({ e with blockView := v }, outcome)

/-- An editor whose active view is drawn from the buffer, before it is marked. -/
def drawActive (e : Editor) : Editor :=
  match e.mode with
  | .text => { e with textView := e.textView.render e.language e.content }
  | .block => { e with blockView := e.blockView.render e.language e.content }

/-- An editor whose active view is drawn from the buffer, with the remembered mark. -/
def render (e : Editor) : Editor :=
  let drawn := e.drawActive
  match e.mark with
  | none => drawn
  | some m =>
    match drawn.markActive m with
    | (marked, .ignored) => { marked with mark := none }
    | (marked, _) => marked

/-- An editor for a buffer, in block mode. -/
def ofBuffer (language : Language) (buffer : Buffer) : Editor :=
  render
    { language
      buffer
      mode := .block
      textView := .empty
      blockView := .empty
      locked := false
      mark := none
      slotTaken := false }

def openFile (language : Language) (options : BufferOptions) (file : List Char) (d : Disk) :
    Except BufferError Editor :=
  (Buffer.load options file d).map (ofBuffer language)

def switchMode (e : Editor) (mode : EditorMode) : Editor :=
  { e with mode }.render

def toggleMode (e : Editor) : Editor :=
  e.switchMode e.mode.toggle

/-! ## What the script says -/

def commands (e : Editor) : List Command :=
  Script.parse e.language e.content

def header (e : Editor) : Header :=
  Script.header e.language e.content

/-! ## Locks and marks -/

def setLocked (e : Editor) (locked : Bool) : Editor :=
  { e with
    locked
    textView := { e.textView with locked }
    blockView := { e.blockView with locked } }

def lock (e : Editor) : Editor :=
  e.setLocked true

def unlock (e : Editor) : Editor :=
  e.setLocked false

/-- An editor that was asked for a mark, and what became of it. -/
def highlight (e : Editor) (m : LineMark) : Editor × MarkOutcome :=
  match e.markActive m with
  | (marked, .applied) => ({ marked with mark := some m }, .applied)
  | other => other

def highlightExecuting (e : Editor) (line : Nat) : Editor × MarkOutcome :=
  e.highlight ⟨line, .executing⟩

def highlightError (e : Editor) (line : Nat) : Editor × MarkOutcome :=
  e.highlight ⟨line, .error⟩

def clearHighlight (e : Editor) : Editor :=
  { e with mark := none, textView := e.textView.clearMark, blockView := e.blockView.clearMark }

/-! ## Edits -/

def commit (e : Editor) (text : List Char) : Editor :=
  { e with buffer := e.buffer.update true text }.render

/-- An editor with another text, as typed in the text view. The text that is there already is no
change. -/
def setText (e : Editor) (text : List Char) : Editor × Except EditError Unit :=
  if e.locked then (e, .error .locked)
  else if e.content = text then (e, .ok ())
  else (e.commit text, .ok ())

/-- An editor that has taken the slot for block edits. -/
def beginEdit (e : Editor) : Except EditError Editor :=
  if e.locked then .error .locked
  else if e.slotTaken then .error .busy
  else .ok { e with slotTaken := true }

def endEdit (e : Editor) : Editor :=
  { e with slotTaken := false }

/-- A block edit: the slot is taken, the text that `change` finds is committed, and the slot is
given back. No text is no change, and the answer says whether there was one. -/
def blockEdit (e : Editor) (change : List Char → Except EditError (Option (List Char))) :
    Editor × Except EditError Bool :=
  match e.beginEdit with
  | .error err => (e, .error err)
  | .ok held =>
    match change held.content with
    | .error err => (held.endEdit, .error err)
    | .ok none => (held.endEdit, .ok false)
    | .ok (some text) => ((held.commit text).endEdit, .ok true)

def append (e : Editor) (c : Command) : Editor × Except EditError Bool :=
  e.blockEdit fun s => .ok (some (Script.append e.language s c))

def insert (e : Editor) (c : Command) (index : Nat) : Editor × Except EditError Bool :=
  e.blockEdit fun s => (Script.insert e.language s c index).map some

def remove (e : Editor) (index : Nat) : Editor × Except EditError Bool :=
  e.blockEdit fun s => (Script.remove e.language s index).map some

def reorder (e : Editor) (start target : Nat) : Editor × Except EditError Bool :=
  e.blockEdit fun s => .ok (Script.reorder e.language s start target)

/-- A script in which a command is moved behind all others, in its canonical form. -/
def moveLast (lang : Language) (script : List Char) (start : Nat) :
    Except EditError (Option (List Char)) :=
  match (Script.parse lang script)[start]? with
  | none => .error (.indexOutOfRange start (Script.count lang script))
  | some moved =>
    match Script.remove lang script start with
    | .error err => .error err
    | .ok rest => .ok (some (Script.append lang rest moved))

/-- The text of a script in which a block is dropped at a boundary between blocks. Behind the last
block the index after the dropped one is asked for; if it is beyond the range, the edit breaks off,
which gives the slot back as any other way out does. -/
def dropChange (lang : Language) (script : List Char) (start boundary : Nat) :
    Except EditError (Option (List Char)) :=
  let count := Script.count lang script
  if boundary < count then .ok (Script.reorder lang script start boundary)
  else match nextIndex? start with
    | none => .error .overflow
    | some behind => if count ≤ behind then .ok none else moveLast lang script start

def dropBlock (e : Editor) (start boundary : Nat) : Editor × Except EditError Bool :=
  e.blockEdit fun s => dropChange e.language s start boundary

def updateParam (e : Editor) (index : Nat) (name value : List Char) :
    Editor × Except EditError Bool :=
  e.blockEdit fun s => (Script.updateParam e.language s index name value).map some

/-! ## Styles and the buffer -/

def editLayers (e : Editor) (edits : List Layers.Edit) : Editor × Bool :=
  let (v, changed) := e.textView.editLayers edits
  ({ e with textView := v }, changed)

def runHighlighter (e : Editor) (layer : Nat) (h : Highlighter) : Editor × Bool :=
  e.editLayers [.replace layer (h.highlight e.content)]

/-- An editor with a change made to its buffer alone; no view is drawn. -/
def mapBuffer (e : Editor) (f : Buffer → Buffer) : Editor :=
  { e with buffer := f e.buffer }

end Editor

end StepScript
