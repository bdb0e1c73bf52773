import StepScript.Pattern.Expr

/-!
# Matching programs

A pattern is compiled to a **program**, a list of instructions that name the instructions after
them. Where an instruction names two, the first one is tried first; this is where "greedy" and "the
branch to the left" become an order.

A repetition whose body may match nothing asks for its body once before it repeats it. Without this,
a turn that matches nothing would hide the turns after it.
-/

set_option autoImplicit false

namespace StepScript.Pattern

inductive Inst where
  /-- Takes one character of a set. -/
  | char (set : CharSet) (next : Nat)
  /-- Tries one instruction, then another. -/
  | split (first second : Nat)
  /-- Holds at the start of the text. -/
  | textStart (next : Nat)
  /-- Holds at the end of the text. -/
  | textEnd (next : Nat)
  /-- Remembers the place in a slot. -/
  | save (slot : Nat) (next : Nat)
  /-- A match. -/
  | accept
deriving DecidableEq

/-- A program is built from its end: new instructions are pushed, and name instructions that are
there already. -/
abbrev Program := Array Inst

namespace Program

/-- A program with one more instruction, and the index of that instruction. -/
def add (p : Program) (i : Inst) : Nat × Program :=
  (p.size, p.push i)

/-- A choice between another turn and going on. -/
def choice (greedy : Bool) (turn next : Nat) : Inst :=
  if greedy then .split turn next else .split next turn

/-- A loop of at least one turn, and the index of its first instruction. `body next p` compiles one
turn in front of `next`. -/
def loop (body : Nat → Program → Nat × Program) (greedy : Bool) (next : Nat) (p : Program) :
    Nat × Program :=
  let (again, p) := p.add .accept
  let (turn, p) := body again p
  (turn, p.set! again (choice greedy turn next))

def turns (body : Nat → Program → Nat × Program) (next : Nat) : Nat → Program → Nat × Program
  | 0, p => (next, p)
  | n + 1, p =>
    let (start, p) := body next p
    turns body start n p

/-- Up to a given number of turns, each of which may be the last one. -/
def optionalTurns (body : Nat → Program → Nat × Program) (greedy : Bool) (next : Nat) :
    Nat → Program → Nat × Program
  | 0, p => (next, p)
  | n + 1, p =>
    let (rest, p) := optionalTurns body greedy next n p
    let (turn, p) := body rest p
    p.add (choice greedy turn next)

/-- A program with the instructions of a pattern in front of the instruction `next`, and the index
of the first of them. -/
def compile : Expr → Nat → Program → Nat × Program
  | .empty, next, p => (next, p)
  | .char set, next, p => p.add (.char set next)
  | .textStart, next, p => p.add (.textStart next)
  | .textEnd, next, p => p.add (.textEnd next)
  | .seq a b, next, p =>
    let (start, p) := compile b next p
    compile a start p
  | .alt a b, next, p =>
    let (second, p) := compile b next p
    let (first, p) := compile a next p
    p.add (.split first second)
  | .group n a, next, p =>
    let (stop, p) := p.add (.save (2 * n + 1) next)
    let (start, p) := compile a stop p
    p.add (.save (2 * n) start)
  | .rep a least (some most) greedy, next, p =>
    let (start, p) := optionalTurns (compile a) greedy next (most - least) p
    turns (compile a) start least p
  | .rep a 0 none greedy, next, p =>
    if a.consumes then
      let (again, p) := p.add .accept
      let (turn, p) := compile a again p
      (again, p.set! again (choice greedy turn next))
    else
      let (turn, p) := loop (compile a) greedy next p
      p.add (choice greedy turn next)
  | .rep a (least + 1) none greedy, next, p =>
    let (turn, p) := loop (compile a) greedy next p
    turns (compile a) turn least p

/-- The program of a whole pattern, and the index of its first instruction. The slots 0 and 1 hold
the ends of the match. -/
def ofExpr (e : Expr) : Nat × Program :=
  compile (.group 0 e) 0 #[.accept]

end Program

end StepScript.Pattern
