import StepScript.Script.Line
import StepScript.Style.Layer
import StepScript.Text.LineBreak
import StepScript.View.Mark

/-!
# The text view

The text view shows a script as text, with style layers, and marks a line as a range of characters.
It owns no text: a rendering takes the text as it is and forgets what was shown before.
-/

set_option autoImplicit false

namespace StepScript

structure TextView where
  /-- The text last rendered. -/
  text : List Char
  /-- The numbers of its command lines. -/
  commandLines : List Nat
  /-- The styles, layer by layer. -/
  layers : Layers
  /-- The mark and the characters it covers. -/
  marked : Option (LineMark × Nat × Nat)
  /-- Whether editing is disabled. -/
  locked : Bool
  /-- How often the view was drawn. -/
  redraws : Nat

namespace TextView

def empty : TextView := ⟨[], [], [], none, false, 0⟩

def mark? (v : TextView) : Option LineMark :=
  v.marked.map Prod.fst

def markRange? (v : TextView) : Option (Nat × Nat) :=
  v.marked.map Prod.snd

def render (lang : Language) (script : List Char) (v : TextView) : TextView :=
  { v with
    text := script
    commandLines := (Script.commandLines lang script).map (·.number)
    layers := []
    marked := none
    redraws := v.redraws + 1 }

/-! ## Marks -/

def markLine (v : TextView) (mark : LineMark) : TextView × MarkOutcome :=
  if mark.line ∉ v.commandLines then (v, .ignored)
  else
    match mark.refusal? v.mark? with
    | some outcome => (v, outcome)
    | none =>
      match Text.lineRange? v.text (mark.line - 1) with
      | none => (v, .ignored)
      | some range => ({ v with marked := some (mark, range), redraws := v.redraws + 1 }, .applied)

def clearMark (v : TextView) : TextView :=
  if v.marked.isSome then { v with marked := none, redraws := v.redraws + 1 } else v

/-! ## Styles -/

/-- The intervals of a layer; a layer that is not there has none. -/
def layer (v : TextView) (n : Nat) : List Interval :=
  (Layers.get? n v.layers).getD []

def stylesIn (v : TextView) (start stop : Nat) : List Interval :=
  Layers.within start stop v.layers

/-- A view after some changes of its layers, and whether one of them changed anything. All changes
together are one redraw. -/
def editLayers (v : TextView) (edits : List Layers.Edit) : TextView × Bool :=
  let (layers, changed) := Layers.editAll v.layers edits
  if changed then ({ v with layers, redraws := v.redraws + 1 }, true) else (v, false)

end TextView

end StepScript
