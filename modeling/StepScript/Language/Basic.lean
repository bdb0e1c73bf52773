import StepScript.Language.Keyword

/-!
# Languages

A **language** fixes the words around the steps: the keyword of the steps section, the labels of the
header, and the token that starts a comment. The keywords of the steps are the same in every
language.
-/

set_option autoImplicit false

namespace StepScript

open Text

/-- The words that surround the steps of a script. Any of them may be empty. -/
structure Language where
  /-- What the marker line of the steps section starts with. -/
  stepsKeyword : List Char
  /-- The header label of the test case. -/
  caseLabel : List Char
  /-- The header label of the script's name. -/
  scriptNameLabel : List Char
  /-- The header label that opens the details. -/
  detailsLabel : List Char
  /-- The token that starts a comment; the empty token starts none. -/
  comment : List Char
deriving DecidableEq

namespace Language

def standard : Language where
  stepsKeyword := "步骤".toList
  caseLabel := "用例".toList
  scriptNameLabel := "脚本名".toList
  detailsLabel := "详情".toList
  comment := "#".toList

variable (lang : Language)

def marker : List Char :=
  lang.stepsKeyword ++ [':']

/-- Whether a trimmed line is a **marker** line: the steps keyword, blanks, and a colon. -/
def isMarker (line : List Char) : Bool :=
  (after? lang.stepsKeyword line).any fun rest => trimStart rest == [':']

def isComment (line : List Char) : Bool :=
  !lang.comment.isEmpty && (after? lang.comment line).isSome

end Language

end StepScript
