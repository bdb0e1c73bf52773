import StepScript.Script.Parse
import StepScript.View.Mark

/-!
# The block view

The block view shows each command of a script as a block with a form, and marks a line as the index
of the block that stands for it.
-/

set_option autoImplicit false

namespace StepScript

structure BlockField where
  /-- What the field stands for. -/
  definition : ParamDef
  /-- What the script says, if it says anything. -/
  value : Option (List Char)
deriving DecidableEq

/-- What a field shows: the script's value, else the default, else nothing. -/
def BlockField.shown (f : BlockField) : List Char :=
  (f.value <|> f.definition.default).getD []

structure Block where
  /-- The position among the commands. -/
  index : Nat
  command : Command
deriving DecidableEq

namespace Block

def category (b : Block) : Category :=
  b.command.keyword.category

/-- The field of a parameter that no definition stands for. -/
def surplusField (p : Parameter) : BlockField :=
  ⟨⟨[], p.kind, false, none⟩, some p.raw⟩

/-- Fields for the definitions, filled by position, and for the parameters beyond them. -/
def fieldsOf : List ParamDef → List Parameter → List BlockField
  | [], params => params.map surplusField
  | d :: defs, [] => ⟨d, none⟩ :: fieldsOf defs []
  | d :: defs, p :: params => ⟨d, some p.raw⟩ :: fieldsOf defs params

def fields (b : Block) : List BlockField :=
  fieldsOf b.command.keyword.params b.command.params

end Block

structure BlockView where
  blocks : List Block
  /-- The mark and the index of the block that carries it. -/
  marked : Option (LineMark × Nat)
  /-- Whether editing is disabled. -/
  locked : Bool
  /-- How often the view was drawn. -/
  redraws : Nat

namespace BlockView

def empty : BlockView := ⟨[], none, false, 0⟩

def mark? (v : BlockView) : Option LineMark :=
  v.marked.map Prod.fst

def markedBlock? (v : BlockView) : Option Nat :=
  v.marked.map Prod.snd

def blocksFrom (index : Nat) : List Command → List Block
  | [] => []
  | c :: commands => ⟨index, c⟩ :: blocksFrom (index + 1) commands

def render (lang : Language) (script : List Char) (v : BlockView) : BlockView :=
  { v with
    blocks := blocksFrom 0 (Script.parse lang script)
    marked := none
    redraws := v.redraws + 1 }

def markLine (v : BlockView) (mark : LineMark) : BlockView × MarkOutcome :=
  match v.blocks.findIdx? fun b => b.command.line == mark.line with
  | none => (v, .ignored)
  | some index =>
    match mark.refusal? v.mark? with
    | some outcome => (v, outcome)
    | none => ({ v with marked := some (mark, index), redraws := v.redraws + 1 }, .applied)

def clearMark (v : BlockView) : BlockView :=
  if v.marked.isSome then { v with marked := none, redraws := v.redraws + 1 } else v

end BlockView

end StepScript
