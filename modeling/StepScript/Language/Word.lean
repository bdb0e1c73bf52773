/-!
# Words of the language

The closed sets of words that a script may use as values: **directions**, **assertion states** and
**locator strategies**. Each set is listed once, in the order in which a reader tries its words, and
a spelling is read back by looking it up in that list.

Main statements: `Direction.ofSpelling?_spelling` and its two siblings — every word is read back
from its spelling.
-/

set_option autoImplicit false

namespace StepScript

/-! ## Directions -/

inductive Direction where
  | up | down | left | right
deriving DecidableEq

namespace Direction

def all : List Direction := [.up, .down, .left, .right]

def spelling : Direction → List Char
  | .up => "up".toList
  | .down => "down".toList
  | .left => "left".toList
  | .right => "right".toList

def ofSpelling? (s : List Char) : Option Direction :=
  all.find? fun d => d.spelling == s

theorem ofSpelling?_spelling (d : Direction) : ofSpelling? d.spelling = some d := by
  cases d <;> decide

end Direction

/-! ## Assertion states -/

/-- What an assertion expects of an element. -/
inductive AssertionState where
  | notExists | notVisible | «exists» | visible
deriving DecidableEq

namespace AssertionState

/-- Every assertion state, the longer spellings first. -/
def all : List AssertionState := [.notExists, .notVisible, .exists, .visible]

def spelling : AssertionState → List Char
  | .notExists => "不存在".toList
  | .notVisible => "不可见".toList
  | .exists => "存在".toList
  | .visible => "可见".toList

def ofSpelling? (s : List Char) : Option AssertionState :=
  all.find? fun a => a.spelling == s

theorem ofSpelling?_spelling (a : AssertionState) : ofSpelling? a.spelling = some a := by
  cases a <;> decide

end AssertionState

/-! ## Locator strategies -/

/-- The one attribute of an element that a named locator is matched against. -/
inductive Strategy where
  | resourceId | text | className | contentDesc | xpath
deriving DecidableEq

namespace Strategy

def all : List Strategy := [.resourceId, .text, .className, .contentDesc, .xpath]

def mark : Char := '&'

/-- How a strategy is written, without the mark. -/
def spelling : Strategy → List Char
  | .resourceId => "resourceId".toList
  | .text => "text".toList
  | .className => "className".toList
  | .contentDesc => "contentDesc".toList
  | .xpath => "xpath".toList

def ofSpelling? (s : List Char) : Option Strategy :=
  all.find? fun t => t.spelling == s

theorem ofSpelling?_spelling (t : Strategy) : ofSpelling? t.spelling = some t := by
  cases t <;> decide

end Strategy

end StepScript
