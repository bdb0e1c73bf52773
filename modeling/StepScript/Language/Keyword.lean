import StepScript.Language.Word
import StepScript.Text.Blank
import StepScript.Text.Cut

/-!
# Keywords

The closed set of **keywords** that a step can start with, and for each keyword the block category
it is shown in and the ordered definitions of its parameters.

Main statements:

* `Keyword.ofSpelling?_spelling` — every keyword is read back from its spelling;
* `Keyword.eq_of_atStart?` — a keyword found at the start of a text is spelt there.
-/

set_option autoImplicit false

namespace StepScript

open Text

/-! ## Kinds of parameters -/

/-- The **kind** of a parameter: what a definition asks for, and what a value turns out to be. -/
inductive ParamKind where
  | coordinate | image | locator | strategy | number | direction | state | package | text
deriving DecidableEq

def ParamKind.name : ParamKind → String
  | .coordinate => "coordinate"
  | .image => "image-locator"
  | .locator => "locator"
  | .strategy => "locator-strategy"
  | .number => "number"
  | .direction => "direction"
  | .state => "assertion-state"
  | .package => "package"
  | .text => "text"

/-- The definition of one positional parameter. -/
structure ParamDef where
  /-- The name shown in a form, which also selects the parameter in an edit. -/
  name : List Char
  /-- What the parameter should be. -/
  kind : ParamKind
  /-- Whether a command means anything without it. -/
  required : Bool
  /-- What a new command is given. -/
  default : Option (List Char)
deriving DecidableEq

/-! ## Categories -/

/-- The palette group that a block is shown in. -/
inductive Category where
  | application | action | input | control | assertion | text
deriving DecidableEq

namespace Category

def name : Category → String
  | .application => "application"
  | .action => "action"
  | .input => "input"
  | .control => "control"
  | .assertion => "assertion"
  | .text => "text"

def color : Category → String
  | .application => "#c586c0"
  | .action => "#569cd6"
  | .input => "#4ec9b0"
  | .control => "#ce9178"
  | .assertion => "#f48771"
  | .text => "#9cdcfe"

end Category

/-! ## Keywords -/

inductive Keyword where
  | launch | close | click | press | swipe | directionalDrag | drag | input | clear | hideKeyboard
  | wait | back | assert | read
deriving DecidableEq

namespace Keyword

/-- Every keyword, in palette order. -/
def all : List Keyword :=
  [.launch, .close, .click, .press, .swipe, .directionalDrag, .drag, .input, .clear, .hideKeyboard,
   .wait, .back, .assert, .read]

def spelling : Keyword → List Char
  | .launch => "启动".toList
  | .close => "关闭".toList
  | .click => "点击".toList
  | .press => "按压".toList
  | .swipe => "滑动".toList
  | .directionalDrag => "定向拖动".toList
  | .drag => "拖动".toList
  | .input => "输入".toList
  | .clear => "清理".toList
  | .hideKeyboard => "隐藏键盘".toList
  | .wait => "等待".toList
  | .back => "返回".toList
  | .assert => "断言".toList
  | .read => "读取".toList

def name : Keyword → String
  | .launch => "launch"
  | .close => "close"
  | .click => "click"
  | .press => "press"
  | .swipe => "swipe"
  | .directionalDrag => "directional_drag"
  | .drag => "drag"
  | .input => "input"
  | .clear => "clear"
  | .hideKeyboard => "hide_keyboard"
  | .wait => "wait"
  | .back => "back"
  | .assert => "assert"
  | .read => "read"

def category : Keyword → Category
  | .launch | .close => .application
  | .click | .press | .swipe | .drag | .directionalDrag => .action
  | .input | .clear | .hideKeyboard => .input
  | .wait | .back => .control
  | .assert => .assertion
  | .read => .text

/-! ## Parameter tables -/

private def element : ParamDef := ⟨"元素".toList, .locator, true, none⟩

private def inputBox : ParamDef := ⟨"输入框".toList, .locator, true, none⟩

private def duration : ParamDef := ⟨"时长/ms".toList, .number, false, some "1000".toList⟩

private def packageName (default : String) : ParamDef :=
  ⟨"包名".toList, .package, true, some default.toList⟩

private def activity : ParamDef := ⟨"Activity".toList, .package, true, some ".MainActivity".toList⟩

private def destination (default : String) : ParamDef :=
  ⟨"终点".toList, .coordinate, true, some default.toList⟩

def params : Keyword → List ParamDef
  | .launch => [packageName "com.example.test_toolkit", activity]
  | .close => [packageName "com.example.app", activity]
  | .click => [element]
  | .press => [element, duration]
  | .swipe =>
    [⟨"起点".toList, .coordinate, true, some "\x7b200,400\x7d".toList⟩,
     destination "\x7b300,600\x7d", duration]
  | .drag => [element, destination "\x7b500,800\x7d", duration]
  | .directionalDrag =>
    [element, ⟨"方向".toList, .direction, true, some "up".toList⟩,
     ⟨"距离".toList, .number, true, some "300".toList⟩, duration]
  | .input => [inputBox, ⟨"文本".toList, .text, true, none⟩]
  | .clear => [inputBox]
  | .hideKeyboard | .back => []
  | .wait => [duration]
  | .assert => [element, ⟨"状态".toList, .state, true, some "存在".toList⟩]
  | .read =>
    [⟨"中心坐标或元素".toList, .locator, true, none⟩, ⟨"宽度".toList, .number, false, none⟩,
     ⟨"高度".toList, .number, false, none⟩]

def paramIndex? (k : Keyword) (name : List Char) : Option Nat :=
  k.params.findIdx? fun d => d.name == name

/-! ## Reading keywords -/

def ofSpelling? (s : List Char) : Option Keyword :=
  all.find? fun k => k.spelling == s

/-- Whether a keyword may end before the text `rest`: at the end, before a parameter list, or before
a blank. -/
def endsBefore : List Char → Bool
  | [] => true
  | c :: _ => c == '[' || isBlank c

def atStart? (s : List Char) : Option (Keyword × List Char) :=
  all.findSome? fun k =>
    (after? k.spelling s).bind fun rest => if endsBefore rest then some (k, rest) else none

/-! ## Laws -/

theorem mem_all (k : Keyword) : k ∈ all := by
  cases k <;> decide

theorem ofSpelling?_spelling (k : Keyword) : ofSpelling? k.spelling = some k := by
  cases k <;> decide

theorem eq_of_atStart? {s rest : List Char} {k : Keyword} (h : atStart? s = some (k, rest)) :
    s = k.spelling ++ rest ∧ endsBefore rest = true := by
  obtain ⟨k', -, h⟩ := List.exists_of_findSome?_eq_some h
  obtain ⟨rest', hp, h⟩ := Option.bind_eq_some_iff.1 h
  split at h
  · next he =>
    simp only [Option.some.injEq, Prod.mk.injEq] at h
    obtain ⟨rfl, rfl⟩ := h
    exact ⟨after?_eq_some.1 hp, he⟩
  · simp at h

end Keyword

end StepScript
