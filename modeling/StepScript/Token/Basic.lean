import StepScript.Text.Size

/-!
# Tokens

A **token** is a piece of a text with its kind and its place. `place` turns a list of lexemes, which
have no place yet, into tokens that follow one another.

Main statement: `texts_place` — placing changes no text.
-/

set_option autoImplicit false

namespace StepScript

open Text

/-- What a piece of a text is shown as. -/
inductive TokenKind where
  /-- A comment, up to the end of its line. -/
  | comment
  /-- The steps keyword on a marker line. -/
  | steps
  /-- The keyword of a command. -/
  | command
  /-- The name of a picture in braces, after an at sign. -/
  | image
  /-- Two numerals in braces. -/
  | coordinate
  /-- Any other text in braces. -/
  | locator
  /-- A strategy, right after a locator. -/
  | strategy
  | direction
  | state
  /-- Two equals signs. -/
  | operator
  | number
  | bracket
  | comma
  /-- Anything else. -/
  | text
  /-- The end of a line. -/
  | newline
deriving DecidableEq

/-- A piece of a text with its kind. -/
structure Lexeme where
  kind : TokenKind
  text : List Char
deriving DecidableEq

structure Token extends Lexeme where
  /-- The byte at which the token starts. -/
  start : Nat
deriving DecidableEq

def Token.stop (t : Token) : Nat :=
  t.start + byteSize t.text

/-- Tokens for a run of lexemes, the first of which starts at the byte `start`. -/
def Token.place (start : Nat) : List Lexeme → List Token
  | [] => []
  | l :: ls => ⟨l, start⟩ :: place (start + byteSize l.text) ls

@[simp] theorem Token.texts_place (start : Nat) (ls : List Lexeme) :
    (Token.place start ls).map (·.toLexeme) = ls := by
  induction ls generalizing start with
  | nil => rfl
  | cons l ls ih => simp [place, ih]

end StepScript
