import StepScript.Shell.File

/-!
# Conditions

A condition compares texts, integers or files. How a condition is read depends first of all on the
number of its words, so that a text that looks like an operator can still be compared.
-/

set_option autoImplicit false

namespace StepScript.Shell

namespace Condition

/-- What a word of a condition may be. -/
inductive Sign where
  | operand
  | endOfWords
  /-- An operator in front of an operand. -/
  | unary
  /-- An operator between two operands. -/
  | binary
  | not | and | or | open' | close
deriving DecidableEq

def signOf (s : Bytes) : Sign :=
  match String.ofList s with
  | "-r" | "-w" | "-x" | "-e" | "-f" | "-d" | "-c" | "-b" | "-p" | "-u" | "-g" | "-k" | "-s" | "-t"
  | "-z" | "-n" | "-h" | "-O" | "-G" | "-L" | "-S" => .unary
  | "=" | "!=" | "<" | ">" | "-eq" | "-ne" | "-ge" | "-gt" | "-le" | "-lt" | "-nt" | "-ot"
  | "-ef" => .binary
  | "!" => .not
  | "-a" => .and
  | "-o" => .or
  | "(" => .open'
  | ")" => .close
  | _ => .operand

/-- Whether an operator in front of some words is an operand of the one behind it. -/
def isOperand : List Bytes → Bool
  | [] => true
  | [_] => false
  | s :: _ => signOf s == .binary

def sign : List Bytes → Sign
  | [] => .endOfWords
  | s :: rest =>
    match signOf s with
    | .unary => if isOperand rest then .operand else .unary
    | .open' => if rest.isEmpty then .operand else .open'
    | t => t

/-- A condition is read as the words that are left, from the one that was read last on. -/
abbrev Eval := StateT (List Bytes) Act

def fail {α : Type} (word : Bytes) (message : String) : Act α :=
  if word.isEmpty then Act.fault message.toList else Act.faultOf word message

def current : Eval Bytes :=
  return (← get).headD []

def peek : Eval Sign :=
  return sign ((← get).drop 1)

def advance (n : Nat) : Eval Unit :=
  modify fun words => words.drop n

def integer (s : Bytes) : Eval Int := do
  match wholeNumber? (some 10) s with
  | some n => return n
  | none => Act.badNumber s

def unary (op : Bytes) (s : Bytes) : Eval Bool := do
  let tested (holds : Act.FileSort → Bool) : Eval Bool := do
    return ((← Act.sort? s).map holds).getD false
  match String.ofList op with
  | "-z" => return s.isEmpty
  | "-n" => return !s.isEmpty
  | "-t" =>
    let _ ← integer s
    return false
  | "-f" => tested fun
      | .plain .. => true
      | _ => false
  | "-d" => tested (· == .folder)
  | "-c" => tested (· == .device)
  | "-p" => tested (· == .pipe)
  | "-h" | "-L" =>
    return match ← Act.entry? s with
      | some (_, .file (.channel _)) => true
      | _ => false
  | "-x" => tested fun
      | .folder | .plain _ true => true
      | _ => false
  | "-s" => tested fun
      | .folder => true
      | .plain size _ => 0 < size
      | _ => false
  | "-e" | "-r" | "-w" | "-O" | "-G" => tested fun _ => true
  | _ => return false

def binary (a op b : Bytes) : Eval Bool := do
  let order (holds : Int → Int → Bool) : Eval Bool := do
    let m ← integer a
    return holds m (← integer b)
  match String.ofList op with
  | "=" => return a == b
  | "!=" => return a != b
  | "<" => return a.comesBefore b
  | ">" => return b.comesBefore a
  | "-eq" => order fun m n => m == n
  | "-ne" => order fun m n => m != n
  | "-ge" => order fun m n => m ≥ n
  | "-gt" => order fun m n => m > n
  | "-le" => order fun m n => m ≤ n
  | "-lt" => order fun m n => m < n
  | "-ef" =>
    match ← Act.entry? a, ← Act.entry? b with
    | some (l, _), some (m, _) => return l == m
    | _, _ => return false
  | _ => return false

mutual

def disjunction : Nat → Sign → Eval Bool
  | 0, _ => return false
  | fuel + 1, n => do
    let a ← conjunction fuel n
    if (← peek) ≠ .or then return a
    advance 2
    let b ← disjunction fuel (sign (← get))
    return a || b

def conjunction : Nat → Sign → Eval Bool
  | 0, _ => return false
  | fuel + 1, n => do
    let a ← negation fuel n
    if (← peek) ≠ .and then return a
    advance 2
    let b ← conjunction fuel (sign (← get))
    return a && b

def negation : Nat → Sign → Eval Bool
  | 0, _ => return false
  | fuel + 1, n => do
    if n ≠ .not then primary fuel n
    else
      let n ← peek
      if n ≠ .endOfWords then advance 1
      return !(← negation fuel n)

def primary : Nat → Sign → Eval Bool
  | 0, _ => return false
  | fuel + 1, n => do
    match n with
    | .endOfWords => return false
    | .open' =>
      advance 1
      let n := sign (← get)
      if n = .close then return false
      let b ← disjunction fuel n
      advance 1
      if sign (← get) ≠ .close then fail [] "closing paren expected"
      return b
    | .unary =>
      let op ← current
      advance 1
      if (← get).isEmpty then fail op "argument expected"
      unary op (← current)
    | _ =>
      if (← peek) = .binary then
        let a ← current
        advance 1
        let op ← current
        advance 1
        if (← get).isEmpty then fail op "argument expected"
        binary a op (← current)
      else return !(← current).isEmpty

end

/-- The truth of a condition. Conditions of three and four words are read by their number. -/
def truth : Nat → Bool → List Bytes → Act Bool
  | 0, _, _ => return false
  | fuel + 1, negated, words => do
    let whole (n : Sign) (words : List Bytes) : Act Bool := do
      let (b, rest) ← (disjunction (4 * words.length + 4) n).run words
      match rest with
      | word :: _ :: _ => fail word "unexpected operator"
      | _ => return b != negated
    match words with
    | [] => return negated
    | [_, op, _] =>
      if signOf op = .binary then whole .operand words else bracketed fuel whole words
    | [_, _, _, _] => bracketed fuel whole words
    | words => whole (sign words) words
where
  /-- The truth of a condition that parentheses may enclose or that may be negated. -/
  bracketed (fuel : Nat) (whole : Sign → List Bytes → Act Bool) (words : List Bytes) :
      Act Bool := do
    if words.head? == some ['('] && words.getLast? == some [')'] then
      let inner := (words.drop 1).dropLast
      whole (sign inner) inner
    else if words.head? == some ['!'] then truth fuel true (words.drop 1)
    else whole (sign words) words

end Condition

end StepScript.Shell
