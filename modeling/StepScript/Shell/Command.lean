import StepScript.Shell.Bytes

/-!
# Commands

The trees that a shell reads scripts as. A **word** is a list of pieces: characters, marks where
quotes open and close, and parts that are expanded when the word is used. Whether a character is
quoted is kept with it, since a quoted character never means anything but itself.

A here-document stands behind the line that announces it, so it is read after the command that it
belongs to. The command holds its number.
-/

set_option autoImplicit false

namespace StepScript.Shell

/-! ## Redirections -/

inductive FileMode where
  | read
  | readWrite
  /-- A file that is there is emptied, unless the shell guards files. -/
  | write
  /-- A file that is there is emptied. -/
  | overwrite
  | append
deriving DecidableEq

/-! ## Words and commands -/

inductive ParamUse where
  /-- Nothing that is known. -/
  | unknown
  | value
  | length
  /-- The word stands in for a missing value. -/
  | useDefault
  /-- The word takes the place of a value that is there. -/
  | useInstead
  /-- A missing value is an error, and the word says which. -/
  | demand
  /-- The word becomes the value that is missing. -/
  | assign
  /-- What the word matches is taken off one end. -/
  | cut (fromEnd longest : Bool)
deriving DecidableEq

mutual

inductive Piece where
  /-- A character that may mean something. -/
  | char (c : Char)
  /-- A character that means itself. -/
  | plain (c : Char)
  /-- A mark where a quoted part starts or ends. -/
  | quote
  /-- A parameter. With `orEmpty`, an empty value counts as missing. -/
  | param (name : Bytes) (use : ParamUse) (orEmpty : Bool) (word : List Piece)
  /-- What a command writes. -/
  | output (command : Option Command)
  /-- The value of an arithmetic expression. -/
  | arithmetic (text : List Piece)

/-- A change of what a channel of a command stands for. -/
inductive Redirection where
  /-- A file. -/
  | file (channel : Nat) (mode : FileMode) (name : List Piece)
  /-- What another channel stands for, or nothing. -/
  | copy (channel : Nat) (source : Option Nat)
  /-- What the channel stands for that a word names. -/
  | copyNamed (channel : Nat) (source : List Piece)
  /-- A here-document. -/
  | document (channel : Nat) (number : Nat)

/-- A command. Where it may fail it holds the number of its line. -/
inductive Command where
  | simple (line : Nat) (assignments words : List (List Piece))
      (redirections : List Redirection)
  | redirected (line : Nat) (body : Command) (redirections : List Redirection)
  | subshell (line : Nat) (body : Command) (redirections : List Redirection)
  /-- A command that nobody waits for. -/
  | background (body : Command) (redirections : List Redirection)
  /-- Commands each of which reads what the one in front of it writes. -/
  | pipeline (stages : List Command) (inBackground : Bool)
  | sequence (first second : Command)
  /-- The second command runs if the first one succeeds. -/
  | both (first second : Command)
  /-- The second command runs if the first one fails. -/
  | either (first second : Command)
  | negated (body : Command)
  | branch (test body : Command) (otherwise : Option Command)
  /-- A loop that goes on while its test succeeds, or until it does. -/
  | loop (untilSuccess : Bool) (test body : Command)
  /-- A loop over words. -/
  | each (line : Nat) (name : Bytes) (words : List (List Piece)) (body : Command)
  /-- The body of the first branch that has a pattern for a word. -/
  | select (line : Nat) (subject : List Piece)
      (branches : List (List (List Piece) × Option Command))
  /-- A name for a command. -/
  | define (line : Nat) (name : Bytes) (body : Command)

end

instance : Inhabited Command := ⟨.sequence (.simple 0 [] [] []) (.simple 0 [] [] [])⟩

abbrev Word := List Piece

/-- A here-document. A quoted one is not expanded. -/
structure Document where
  quoted : Bool
  body : Word

instance : Inhabited Document := ⟨⟨true, []⟩⟩

namespace Word

def text (w : Word) : Bytes :=
  w.filterMap fun
    | .char c | .plain c => some c
    | _ => none

def bare? (w : Word) : Option Bytes :=
  w.mapM fun
    | .char c => some c
    | _ => none

def isAssignment (w : Word) : Bool :=
  go true w
where
  /-- Whether the rest of a word ends a name with an equals sign. -/
  go (first : Bool) : Word → Bool
    | .char c :: w =>
      if c == '=' then !first
      else (if first then isNameStart c else isNamePart c) && go false w
    | _ => false

end Word

end StepScript.Shell
