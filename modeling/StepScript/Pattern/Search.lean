import StepScript.Pattern.Program
import StepScript.Pattern.Reader

/-!
# Searching with patterns

A search tries the places of a text from left to right. At one place it follows the program by the
order of its choices, and never follows the same instruction at the same place twice: what failed
once fails again. `matches` finds one match after another, and skips an empty match where the match
before it ended.
-/

set_option autoImplicit false

namespace StepScript.Pattern

/-- The places that a match remembers, by slot. -/
abbrev Slots := List (Nat × Nat)

/-- A point of a search: the next instruction, the place, the text from there on, and what is
remembered. -/
structure Thread where
  inst : Nat
  place : Nat
  rest : List Char
  slots : Slots

/-- The threads that follow a thread, in order, or the slots of a match. -/
def Thread.next (p : Program) (t : Thread) : Slots ⊕ List Thread :=
  match p[t.inst]? with
  | none => .inr []
  | some .accept => .inl t.slots
  | some (.split first second) => .inr [{ t with inst := first }, { t with inst := second }]
  | some (.save slot next) =>
    .inr [{ t with inst := next, slots := (slot, t.place) :: t.slots }]
  | some (.textStart next) => .inr (if t.place = 0 then [{ t with inst := next }] else [])
  | some (.textEnd next) => .inr (if t.rest.isEmpty then [{ t with inst := next }] else [])
  | some (.char set next) =>
    match t.rest with
    | [] => .inr []
    | c :: rest =>
      .inr (if set.contains c then [⟨next, t.place + 1, rest, t.slots⟩] else [])

/-- The match that some threads lead to, the first thread first. `seen` holds the pairs of an
instruction and a place that were followed before; `fuel` bounds the number of steps. -/
def run (p : Program) (fuel : Nat) (seen : Array Bool) : List Thread → Option Slots
  | [] => none
  | t :: threads =>
    match fuel with
    | 0 => none
    | fuel + 1 =>
      let key := t.place * p.size + t.inst
      if seen.getD key true then run p fuel seen threads
      else
        match t.next p with
        | .inl slots => some slots
        | .inr more => run p fuel (seen.set! key true) (more ++ threads)

/-- The slots of the match at one place, where `rest` is the text from there on. Every pair of an
instruction and a place is followed at most once and leads to at most two threads, which bounds the
steps. -/
def matchAt (start : Nat) (p : Program) (length place : Nat) (rest : List Char) : Option Slots :=
  let pairs := p.size * (length + 1)
  run p (2 * pairs + 1) (Array.replicate pairs false) [⟨start, place, rest, []⟩]

def searchFrom (start : Nat) (p : Program) (length place : Nat) : List Char → Option Slots
  | [] => matchAt start p length place []
  | c :: rest =>
    matchAt start p length place (c :: rest) <|> searchFrom start p length (place + 1) rest

/-- The characters that a group matched: the first one, and the one behind the last. -/
def groupRange? (n : Nat) (slots : Slots) : Option (Nat × Nat) :=
  match slots.lookup (2 * n), slots.lookup (2 * n + 1) with
  | some start, some stop => some (start, stop)
  | _, _ => none

structure Matcher where
  start : Nat
  program : Program

def Matcher.ofText? (s : List Char) : Option Matcher :=
  (read s).map fun e => ⟨(Program.ofExpr e).1, (Program.ofExpr e).2⟩

namespace Matcher

variable (m : Matcher)

/-- The slots of the first match of a text at a place or after it. -/
def search (s : List Char) (place : Nat) : Option Slots :=
  if s.length < place then none
  else searchFrom m.start m.program s.length place (s.drop place)

/-- The slots of the first match at a place or after it that is not an empty match at `last`. -/
def searchAfter (s : List Char) (place : Nat) (last : Option Nat) : Option Slots :=
  match m.search s place with
  | none => none
  | some slots =>
    match groupRange? 0 slots with
    | some (start, stop) =>
      if start = stop ∧ last = some stop then m.search s (place + 1) else some slots
    | none => none

/-- The slots of all matches, one after another, at a place or after it. `fuel` bounds their number:
two matches in a row are not both empty at one place. -/
def matchesFrom (s : List Char) : Nat → Nat → Option Nat → List Slots
  | 0, _, _ => []
  | fuel + 1, place, last =>
    match m.searchAfter s place last with
    | none => []
    | some slots =>
      match groupRange? 0 slots with
      | some (_, stop) => slots :: matchesFrom s fuel stop (some stop)
      | none => []

/-- The slots of all matches in a text. -/
def «matches» (s : List Char) : List Slots :=
  m.matchesFrom s (2 * s.length + 2) 0 none

end Matcher

end StepScript.Pattern
