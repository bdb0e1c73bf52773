import StepScript.Pattern.Search
import StepScript.Style.Interval
import StepScript.Style.Sheet
import StepScript.Token.Lexer

/-!
# The highlighter

The highlighter turns a script into style intervals: first one for every token that has a style,
then one for every match of the rules, line by line. It goes by tokens alone, so that a line that is
no command is coloured too.
-/

set_option autoImplicit false

namespace StepScript

open Text

/-- A style for the matches of a pattern in each line, or for one group of each match. -/
structure StyleRule where
  matcher : Pattern.Matcher
  style : Nat
  group : Option Nat

/-- A rule with its pattern as it is written. -/
structure RuleText where
  pattern : List Char
  style : Nat
  group : Option Nat

/-- The rule that a text stands for, if its pattern is one. -/
def StyleRule.ofText? (t : RuleText) : Option StyleRule :=
  (Pattern.Matcher.ofText? t.pattern).map fun matcher => ⟨matcher, t.style, t.group⟩

structure Highlighter where
  language : Language
  sheet : StyleSheet
  rules : List StyleRule

namespace Highlighter

def standard : Highlighter := ⟨.standard, .standard, []⟩

/-- The highlighter with some written rules, if each of them has a pattern. -/
def ofTexts? (language : Language) (sheet : StyleSheet) (rules : List RuleText) :
    Option Highlighter :=
  (rules.mapM StyleRule.ofText?).map fun rules => ⟨language, sheet, rules⟩

/-! ## Tokens -/

/-- The intervals of a run of lexemes, the first of which starts at the character `start`. -/
def lexemeIntervals (sheet : StyleSheet) (start : Nat) : List Lexeme → List Interval
  | [] => []
  | l :: ls =>
    let stop := start + l.text.length
    match sheet.style? l.kind with
    | some style => ⟨start, stop, style⟩ :: lexemeIntervals sheet stop ls
    | none => lexemeIntervals sheet stop ls

/-! ## Rules -/

/-- The parts of a line that a rule styles, as ranges of characters. -/
def ruleRanges (rule : StyleRule) (line : List Char) : List (Nat × Nat) :=
  (rule.matcher.matches line).filterMap (Pattern.groupRange? (rule.group.getD 0))

/-- The intervals that a rule puts on a line that starts at the character `start`. An empty match
styles nothing. -/
def ruleIntervals (rule : StyleRule) (start : Nat) (line : List Char) : List Interval :=
  ((ruleRanges rule line).filter fun (a, b) => a < b).map fun (a, b) =>
    ⟨start + a, start + b, rule.style⟩

/-- The intervals that the rules put on lines, the first of which starts at the character `start`.
-/
def lineIntervals (rules : List StyleRule) (start : Nat) : List (List Char) → List Interval
  | [] => []
  | line :: rest =>
    (rules.flatMap fun rule => ruleIntervals rule start line) ++
      lineIntervals rules (start + line.length + 1) rest

def highlight (h : Highlighter) (script : List Char) : List Interval :=
  lexemeIntervals h.sheet 0 (Lexer.lexText h.language script) ++
    lineIntervals h.rules 0 (splitLines script)

end Highlighter

end StepScript
