import StepScript.Shell.Command

/-!
# Reading a script

A script is read character by character, with tokens and words on top of that. This module holds
the state of a reading and the reading of single characters.

The text of an alias is put in front of what is left to read, with a **mark** behind it, a
character that no byte stands for. Nobody sees marks but the function that reads the next character.
The alias is in use up to the character behind the mark, and does not stand for its text again.
-/

set_option autoImplicit false

namespace StepScript.Shell

/-! ## Tokens -/

/-- Words that mean something where a command starts. -/
inductive Keyword where
  | not | case' | do' | done | elif | else' | esac | fi | for' | if' | in' | then' | until'
  | while' | openBrace | closeBrace
deriving DecidableEq

namespace Keyword

def all : List Keyword :=
  [.not, .case', .do', .done, .elif, .else', .esac, .fi, .for', .if', .in', .then', .until',
    .while', .openBrace, .closeBrace]

def spelling : Keyword → String
  | .not => "!"
  | .case' => "case"
  | .do' => "do"
  | .done => "done"
  | .elif => "elif"
  | .else' => "else"
  | .esac => "esac"
  | .fi => "fi"
  | .for' => "for"
  | .if' => "if"
  | .in' => "in"
  | .then' => "then"
  | .until' => "until"
  | .while' => "while"
  | .openBrace => "\x7b"
  | .closeBrace => "\x7d"

def ofText? (s : Bytes) : Option Keyword :=
  all.find? fun k => k.spelling.toList == s

end Keyword

inductive Token where
  | endOfFile | newline | semicolon | background | and | or | pipe | open' | close | endCase
  | redirection | word
  | keyword (k : Keyword)
deriving DecidableEq

namespace Token

def name : Token → String
  | .endOfFile => "end of file"
  | .newline => "newline"
  | .semicolon => "\";\""
  | .background => "\"&\""
  | .and => "\"&&\""
  | .or => "\"||\""
  | .pipe => "\"|\""
  | .open' => "\"(\""
  | .close => "\")\""
  | .endCase => "\";;\""
  | .redirection => "redirection"
  | .word => "word"
  | .keyword k => "\"" ++ k.spelling ++ "\""

def endsList : Token → Bool
  | .endOfFile | .close | .endCase => true
  | .keyword k =>
    k ∈ [.do', .done, .elif, .else', .esac, .fi, .then', .closeBrace]
  | _ => false

end Token

/-! ## The state of a reading -/

structure Expectation where
  /-- Whether lines may end in front of the token. -/
  skipNewlines : Bool
  keywords : Bool
  aliases : Bool
  /-- Whether the token is the delimiter of a here-document. -/
  delimiter : Bool
deriving DecidableEq

namespace Expectation

def plain : Expectation := ⟨false, false, false, false⟩

def command : Expectation := ⟨false, true, true, false⟩

def commandBelow : Expectation := ⟨true, true, true, false⟩

end Expectation

/-- A redirection without what stands behind it. -/
inductive Opening where
  | file (channel : Nat) (mode : FileMode)
  | copy (channel : Nat)
  /-- A here-document. Tabs may be dropped from the starts of its lines. -/
  | document (channel : Nat) (dropsTabs : Bool)
deriving DecidableEq

/-- A here-document that is announced and not read. -/
structure Announcement where
  number : Nat
  delimiter : Bytes
  quoted : Bool
  dropsTabs : Bool

structure Reading where
  /-- What is left to read. -/
  rest : List Char
  /-- The marks in front of the last character. -/
  passed : List Char
  line : Nat
  /-- Whether the last token is read once more. -/
  pushedBack : Bool
  /-- The last token. -/
  token : Token
  /-- The last word. -/
  word : Word
  /-- Whether the last word is quoted in part. -/
  quoted : Bool
  /-- The start of the last redirection. -/
  opening : Opening
  expected : Expectation
  announced : List Announcement
  /-- The here-documents that were read, by their numbers. -/
  documents : Array Document
  /-- What aliases stand for. -/
  aliases : List (Bytes × Bytes)

namespace Reading

def start (text : Bytes) (documents : Array Document) (aliases : List (Bytes × Bytes)) :
    Reading where
  rest := text
  passed := []
  line := 1
  pushedBack := false
  token := .newline
  word := []
  quoted := false
  opening := .file 1 .write
  expected := .plain
  announced := []
  documents
  aliases

end Reading

/-- A step of a reading, which may end in a fault of the text that a message tells of. -/
abbrev Parse := EStateM Bytes Reading

/-- The bound for everything that reads a script. Nothing that is ever read comes near it. -/
def Parse.limit : Nat := Nat.pow 10 9

/-! ## Characters -/

def markBase : Nat := 0x10000

/-- The mark behind the text of an alias, by its place in the list of aliases. A spent one says no
more than that the alias is in use. -/
def aliasMark (place : Nat) (spent : Bool) : Char :=
  Char.ofNat (markBase + 2 * place + (if spent then 1 else 0))

def markedPlace (mark : Char) : Nat :=
  (mark.toNat - markBase) / 2

def spentMark (mark : Char) : Char :=
  aliasMark (markedPlace mark) true

def isMark (c : Char) : Bool :=
  markBase ≤ c.toNat

/-- Whether the text of an alias ends in a blank, so that the next word may be an alias too. -/
def endsInBlank (s : Bytes) : Bool :=
  s.getLast? == some ' ' || s.getLast? == some '\t'

namespace Parse

def fail {α : Type} (message : String) : Parse α :=
  throw message.toList

/-- The next character, or nothing at the end. Behind the text of an alias that ends in a blank the
next word may be an alias too. -/
def next : Parse (Option Char) :=
  modifyGet fun r => go { r with passed := [] } r.rest
where
  /-- The next character of a text. -/
  go (r : Reading) : List Char → Option Char × Reading
    | [] => (none, { r with rest := [] })
    | c :: rest =>
      if isMark c then
        let goesOn := c ≠ spentMark c &&
          (r.aliases[markedPlace c]?.map fun a => endsInBlank a.2).getD false
        go { r with
          passed := c :: r.passed
          expected := { r.expected with aliases := goesOn || r.expected.aliases } } rest
      else (some c, { r with rest })

def unread : Option Char → Parse Unit
  | none => pure ()
  | some c => modify fun r => { r with rest := c :: r.rest }

def countLine : Parse Unit :=
  modify fun r => { r with line := r.line + 1 }

def nextJoined : Parse (Option Char) :=
  go limit
where
  /-- The next character behind at most so many line ends. -/
  go : Nat → Parse (Option Char)
    | 0 => next
    | fuel + 1 => do
      match ← next with
      | some '\\' =>
        match ← next with
        | some '\n' =>
          countLine
          go fuel
        | c =>
          unread c
          return some '\\'
      | c => return c

end Parse

end StepScript.Shell
