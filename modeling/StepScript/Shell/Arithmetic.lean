import StepScript.Shell.State

/-!
# Arithmetic expressions

Integers of 64 bits with the usual operators. An expression is evaluated while it is read, with one
token read ahead, so that what is assigned in front of a fault stays assigned. Where an operator
does not need an operand, the operand is read but not evaluated.
-/

set_option autoImplicit false

namespace StepScript.Shell

/-! ## Operators -/

inductive Operator where
  | mul | div | rem | add | sub | shiftLeft | shiftRight
  | less | lessEq | greater | greaterEq | equal | unequal
  | bitAnd | bitXor | bitOr
deriving DecidableEq

namespace Operator

def looseness : Operator → Nat
  | .mul | .div | .rem => 0
  | .add | .sub => 1
  | .shiftLeft | .shiftRight => 2
  | .less | .lessEq | .greater | .greaterEq => 3
  | .equal | .unequal => 4
  | .bitAnd => 5
  | .bitXor => 6
  | .bitOr => 7

def loosest : Nat := 8

def truth (b : Bool) : Int := if b then 1 else 0

def word (n : Int) : BitVec 64 := BitVec.ofInt 64 n

/-- The value of an operator whose second operand is not zero where that matters. -/
def apply (a b : Int) : Operator → Int
  | .mul => wrap64 (a * b)
  | .div => wrap64 (Int.tdiv a b)
  | .rem => Int.tmod a b
  | .add => wrap64 (a + b)
  | .sub => wrap64 (a - b)
  | .shiftLeft => (word a <<< (Int.toNat (b % 64))).toInt
  | .shiftRight => (word a).sshiftRight (Int.toNat (b % 64)) |>.toInt
  | .less => truth (a < b)
  | .lessEq => truth (a ≤ b)
  | .greater => truth (a > b)
  | .greaterEq => truth (a ≥ b)
  | .equal => truth (a == b)
  | .unequal => truth (a != b)
  | .bitAnd => (word a &&& word b).toInt
  | .bitXor => (word a ^^^ word b).toInt
  | .bitOr => (word a ||| word b).toInt

end Operator

/-! ## Tokens -/

namespace Arithmetic

inductive Token where
  | endOfText | bad | number | variable | open' | close | not | bitNot | question | colon | and | or
  | operator (op : Operator)
  /-- An assignment, of the value of an operator if there is one. -/
  | assign (op : Option Operator)
deriving DecidableEq

/-- What a number or a variable is. -/
structure Value where
  number : Int
  name : Bytes

structure Reading where
  /-- All of the expression. -/
  text : Bytes
  /-- What is left of it. -/
  rest : Bytes
  /-- The token that was read ahead. -/
  ahead : Token
  /-- What the last token is. -/
  value : Value

abbrev Eval := StateT Reading Act

def fail {α : Type} (message : String) : Eval α := do
  Act.fault ("arithmetic expression: ".toList ++ message.toList ++ ": \"".toList ++
    (← get).text ++ ['"'])

/-- An operator or the assignment of its value, and what is left behind it. -/
def orAssign (op : Operator) : Bytes → Token × Bytes
  | '=' :: s => (.assign (some op), s)
  | s => (.operator op, s)

/-- The token at the start of a text that is no number and no name, and what is left behind it. -/
def sign : Bytes → Token × Bytes
  | [] => (.endOfText, [])
  | '=' :: '=' :: s => (.operator .equal, s)
  | '=' :: s => (.assign none, s)
  | '>' :: '=' :: s => (.operator .greaterEq, s)
  | '>' :: '>' :: s => orAssign .shiftRight s
  | '>' :: s => (.operator .greater, s)
  | '<' :: '=' :: s => (.operator .lessEq, s)
  | '<' :: '<' :: s => orAssign .shiftLeft s
  | '<' :: s => (.operator .less, s)
  | '|' :: '|' :: s => (.or, s)
  | '|' :: s => orAssign .bitOr s
  | '&' :: '&' :: s => (.and, s)
  | '&' :: s => orAssign .bitAnd s
  | '!' :: '=' :: s => (.operator .unequal, s)
  | '!' :: s => (.not, s)
  | '(' :: s => (.open', s)
  | ')' :: s => (.close, s)
  | '*' :: s => orAssign .mul s
  | '/' :: s => orAssign .div s
  | '%' :: s => orAssign .rem s
  | '+' :: s => orAssign .add s
  | '-' :: s => orAssign .sub s
  | '^' :: s => orAssign .bitXor s
  | '~' :: s => (.bitNot, s)
  | '?' :: s => (.question, s)
  | ':' :: s => (.colon, s)
  | s => (.bad, s)

def next : Eval Token := do
  let r ← get
  let s := r.rest.dropWhile fun c => c == ' ' || c == '\t' || c == '\n'
  match s with
  | [] =>
    set { r with rest := [] }
    return .endOfText
  | c :: _ =>
    if c.isDigit then
      let n := readNumber none s
      set { r with rest := n.rest, value := ⟨clamp64 n.value, []⟩ }
      return .number
    else if isNameStart c then
      set { r with
        rest := s.dropWhile isNamePart
        value := ⟨0, s.takeWhile isNamePart⟩ }
      return .variable
    else
      let (t, rest) := sign s
      set { r with rest }
      return t

def value : Eval Value :=
  return (← get).value

def ahead : Eval Token :=
  return (← get).ahead

def setAhead (t : Token) : Eval Unit :=
  modify fun r => { r with ahead := t }

/-! ## Evaluation -/

def lookup (name : Bytes) : Eval Int := do
  let text := (← Act.value? name).getD []
  match wholeNumber? none text with
  | some n => return n
  | none => Act.badNumber text

def operate (op : Operator) (a b : Int) : Eval Int := do
  if (op = .div || op = .rem) && b == 0 then fail "division by zero"
  if (op = .div || op = .rem) && b == -1 && a == -Int.pow 2 63 then
    throw (Stop.signal 8)
  return op.apply a b

mutual

/-- An operand, given the token that it starts with, what that is, and the token behind it. With
`idle`, nothing is evaluated. -/
def primary (idle : Bool) : Nat → Token → Value → Token → Eval Int
  | 0, _, _, _ => fail "expecting primary"
  | fuel + 1, t, v, following => do
    match t with
    | .open' =>
      let n ← assignment idle fuel following
      if (← ahead) ≠ .close then fail "expecting ')'"
      setAhead (← next)
      return n
    | .number =>
      setAhead following
      return v.number
    | .variable =>
      setAhead following
      if idle then return 0 else lookup v.name
    | .operator .add =>
      let v ← value
      primary idle fuel following v (← next)
    | .operator .sub =>
      let v ← value
      return wrap64 (-(← primary idle fuel following v (← next)))
    | .not =>
      let v ← value
      return Operator.truth ((← primary idle fuel following v (← next)) == 0)
    | .bitNot =>
      let v ← value
      return -(← primary idle fuel following v (← next)) - 1
    | _ => fail "expecting primary"

/-- The rest of a chain of operators behind an operand, up to an operator that is too loose. -/
def chain (idle : Bool) : Nat → Int → Operator → Nat → Eval Int
  | 0, a, _, _ => return a
  | fuel + 1, a, op, bound => do
    let t ← next
    let v ← value
    let b ← primary idle fuel t v (← next)
    let b ←
      match ← ahead with
      | .operator tighter =>
        if tighter.looseness < op.looseness then chain idle fuel b tighter op.looseness else pure b
      | _ => pure b
    let a ← if idle then pure b else operate op a b
    match ← ahead with
    | .operator further =>
      if bound ≤ further.looseness then return a else chain idle fuel a further bound
    | _ => return a

def operands (idle : Bool) : Nat → Token → Value → Token → Eval Int
  | 0, _, _, _ => fail "expecting primary"
  | fuel + 1, t, v, following => do
    let a ← primary idle fuel t v following
    match ← ahead with
    | .operator op => chain idle fuel a op Operator.loosest
    | _ => return a

def conjunction (idle : Bool) : Nat → Token → Value → Token → Eval Int
  | 0, _, _, _ => fail "expecting primary"
  | fuel + 1, t, v, following => do
    let a ← operands idle fuel t v following
    if (← ahead) ≠ .and then return a
    let t ← next
    let v ← value
    let b ← conjunction (idle || a == 0) fuel t v (← next)
    return Operator.truth (a != 0 && b != 0)

def disjunction (idle : Bool) : Nat → Token → Value → Token → Eval Int
  | 0, _, _, _ => fail "expecting primary"
  | fuel + 1, t, v, following => do
    let a ← conjunction idle fuel t v following
    if (← ahead) ≠ .or then return a
    let t ← next
    let v ← value
    let b ← disjunction (idle || a != 0) fuel t v (← next)
    return Operator.truth (a != 0 || b != 0)

def choice (idle : Bool) : Nat → Token → Value → Token → Eval Int
  | 0, _, _, _ => fail "expecting primary"
  | fuel + 1, t, v, following => do
    let a ← disjunction idle fuel t v following
    if (← ahead) ≠ .question then return a
    let b ← assignment (idle || a == 0) fuel (← next)
    if (← ahead) ≠ .colon then fail "expecting ':'"
    let t ← next
    let v ← value
    let c ← choice (idle || a != 0) fuel t v (← next)
    return if a != 0 then b else c

def assignment (idle : Bool) : Nat → Token → Eval Int
  | 0, _ => fail "expecting primary"
  | fuel + 1, t => do
    let v ← value
    let following ← next
    match t, following with
    | .variable, .assign op =>
      let n ← assignment idle fuel (← next)
      if idle then return n
      let n ←
        match op with
        | none => pure n
        | some op => operate op (← lookup v.name) n
      Act.assign v.name (Bytes.ofInt n)
      return n
    | t, following => choice idle fuel t v following

end

def evaluate (text : Bytes) : Act Int := do
  let whole : Eval Int := do
    let n ← assignment false (16 * text.length + 64) (← next)
    if (← ahead) ≠ .endOfText then fail "expecting EOF"
    return n
  let (n, _) ← whole.run ⟨text, text, .endOfText, ⟨0, []⟩⟩
  return n

end Arithmetic

end StepScript.Shell
