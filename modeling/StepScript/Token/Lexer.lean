import StepScript.Parameter
import StepScript.Script.Comment
import StepScript.Text.Lines
import StepScript.Token.Basic

/-!
# The lexer

The lexer cuts a text into lexemes for display. It never fails: a character that starts nothing else
is a lexeme of its own.

Main statement: `flatten_lexText` — the lexemes of a text make up the text.
-/

set_option autoImplicit false

namespace StepScript

open Text

namespace Lexer

/-! ## One lexeme -/

/-- Whether a value may end before the text `rest`: at the end, before a comma or a closing bracket,
or before a blank. -/
def endsValue : List Char → Bool
  | [] => true
  | c :: _ => c == ',' || c == ']' || isBlank c

/-- The length of the first of some words that a text starts with as a value of its own. -/
def wordLength? (words : List (List Char)) (s : List Char) : Option Nat :=
  words.findSome? fun word =>
    (after? word s).bind fun rest => if endsValue rest then some word.length else none

/-- The kind of the lexeme that starts with `c`, and how many characters of the text `s` behind `c`
belong to it. -/
def scan (c : Char) (s : List Char) : TokenKind × Nat :=
  let image := (after? ['@', '{'] (c :: s)).bind (cutAt '}')
  let braced := (after? ['{'] (c :: s)).bind (cutAt '}')
  match image, braced, Keyword.atStart? (c :: s) with
  | some (name, _), _, _ => (.image, name.length + 2)
  | none, some (body, _), _ =>
    (if ParamValue.isCoordinateBody body then .coordinate else .locator, body.length + 1)
  | none, none, some (k, _) => (.command, k.spelling.length - 1)
  | none, none, none =>
    match wordLength? (Direction.all.map (·.spelling)) (c :: s),
        wordLength? (AssertionState.all.map (·.spelling)) (c :: s) with
    | some n, _ => (.direction, n - 1)
    | none, some n => (.state, n - 1)
    | none, none =>
      if (after? ['=', '='] (c :: s)).isSome then (.operator, 1)
      else if c = '[' ∨ c = ']' then (.bracket, 0)
      else if c = ',' then (.comma, 0)
      else if c.isDigit then (.number, (s.takeWhile Char.isDigit).length)
      else (.text, 0)

def takesStrategy : TokenKind → Bool
  | .coordinate | .locator => true
  | _ => false

/-- How many characters a strategy and its mark take up at the start of a text. -/
def strategyLength? (s : List Char) : Option Nat :=
  wordLength? (Strategy.all.map fun t => Strategy.mark :: t.spelling) s

/-! ## One line -/

/-- The lexemes of a text, where `suffix` says whether a strategy may come first. -/
def lexFrom (suffix : Bool) : List Char → List Lexeme
  | [] => []
  | c :: s =>
    match if suffix then strategyLength? (c :: s) else none with
    | some n => ⟨.strategy, c :: s.take (n - 1)⟩ :: lexFrom false (s.drop (n - 1))
    | none =>
      let (kind, n) := scan c s
      ⟨kind, c :: s.take n⟩ :: lexFrom (takesStrategy kind) (s.drop n)
termination_by s => s.length
decreasing_by
  all_goals
    rw [List.length_drop, List.length_cons]
    omega

/-- A text as one lexeme of free text; an empty text is no lexeme. -/
def freeText (s : List Char) : List Lexeme :=
  if s.isEmpty then [] else [⟨.text, s⟩]

/-- The lexemes of a line that starts with the steps keyword and a colon. What follows the colon is
free text. -/
def lexMarker? (lang : Language) (line : List Char) : Option (List Lexeme) :=
  (after? lang.stepsKeyword (trimStart line)).bind fun rest =>
    (after? [':'] (trimStart rest)).map fun tail =>
      freeText (indentation line) ++ ⟨.steps, lang.stepsKeyword⟩ :: freeText (indentation rest) ++
        ⟨.text, [':']⟩ :: freeText tail

def lexCode (lang : Language) (line : List Char) : List Lexeme :=
  (lexMarker? lang line).getD (lexFrom false line)

def lexLine (lang : Language) (line : List Char) : List Lexeme :=
  match lang.cutComment line with
  | some (code, comment) => lexCode lang code ++ [⟨.comment, comment⟩]
  | none => lexCode lang line

/-! ## A whole text -/

def lexLines (lang : Language) : List (List Char) → List Lexeme
  | [] => []
  | [line] => lexLine lang line
  | line :: rest => lexLine lang line ++ ⟨.newline, ['\n']⟩ :: lexLines lang rest

def lexText (lang : Language) (s : List Char) : List Lexeme :=
  lexLines lang (splitLines s)

end Lexer

namespace Token

def ofLine (lang : Language) (line : List Char) : List Token :=
  place 0 (Lexer.lexLine lang line)

def ofText (lang : Language) (s : List Char) : List Token :=
  place 0 (Lexer.lexText lang s)

end Token

/-! ## Laws -/

namespace Lexer

def flatten (ls : List Lexeme) : List Char :=
  ls.flatMap (·.text)

@[simp] theorem flatten_nil : flatten [] = [] := rfl

@[simp] theorem flatten_cons (l : Lexeme) (ls : List Lexeme) :
    flatten (l :: ls) = l.text ++ flatten ls := by
  simp [flatten]

@[simp] theorem flatten_append (ls ms : List Lexeme) :
    flatten (ls ++ ms) = flatten ls ++ flatten ms := by
  simp [flatten]

@[simp] theorem flatten_freeText (s : List Char) : flatten (freeText s) = s := by
  cases s <;> simp [freeText]

theorem flatten_lexFrom (suffix : Bool) (s : List Char) : flatten (lexFrom suffix s) = s := by
  fun_induction lexFrom suffix s with
  | case1 => rfl
  | case2 suffix c s n h ih => simp [ih]
  | case3 suffix c s h kind n hs ih => simp [ih]

theorem flatten_lexCode (lang : Language) (line : List Char) :
    flatten (lexCode lang line) = line := by
  unfold lexCode
  cases h : lexMarker? lang line with
  | none => simp [flatten_lexFrom]
  | some ls =>
    obtain ⟨rest, hk, h⟩ := Option.bind_eq_some_iff.1 h
    obtain ⟨tail, hc, rfl⟩ := Option.map_eq_some_iff.1 h
    have hk := after?_eq_some.1 hk
    have hc := after?_eq_some.1 hc
    have hr := indentation_append_trimStart rest
    have hl := indentation_append_trimStart line
    rw [hc] at hr
    rw [hk, ← hr] at hl
    simpa using hl

theorem flatten_lexLine (lang : Language) (line : List Char) :
    flatten (lexLine lang line) = line := by
  unfold lexLine
  split
  · next h => simp [flatten_lexCode, Language.eq_of_cutComment h]
  · exact flatten_lexCode lang line

theorem flatten_lexLines (lang : Language) (lines : List (List Char)) :
    flatten (lexLines lang lines) = joinLines lines := by
  induction lines with
  | nil => rfl
  | cons line rest ih =>
    cases rest with
    | nil => exact flatten_lexLine lang line
    | cons next rest => simp [lexLines, joinLines, flatten_lexLine, ih]

/-- Nothing is lost: the lexemes of a text make up the text. -/
theorem flatten_lexText (lang : Language) (s : List Char) : flatten (lexText lang s) = s := by
  simp [lexText, flatten_lexLines]

end Lexer

end StepScript
