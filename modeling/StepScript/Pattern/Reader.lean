import StepScript.Pattern.Expr

/-!
# Reading patterns

A pattern is read in two stages. `marksOf` cuts the text into **marks**: characters with their
escapes undone, whole classes, operators. `read` builds the tree from the marks, with a stack of the
groups that are open.

A pattern is refused if a group or a class is left open, if a group is closed that was not opened,
if an operator has nothing to repeat, if the bounds of a range or a repetition are not in order, and
if an escape has no meaning.
-/

set_option autoImplicit false

namespace StepScript.Pattern

/-! ## Marks -/

/-- A piece of a written pattern. -/
inductive Mark where
  | char (set : CharSet)
  | textStart
  | textEnd
  | bar
  /-- The start of a group, which may be remembered. -/
  | opening (remembered : Bool)
  | closing
  | rep (least : Nat) (most : Option Nat) (greedy : Bool)

def escape? (c : Char) : Option CharSet :=
  if c = 'd' then some .digit
  else if c = 'w' then some .word
  else if c.toNat < 0x80 ∧ 0x20 < c.toNat ∧ ¬ c.isAlphanum ∧ c ≠ '<' ∧ c ≠ '>' then
    some (.single c)
  else none

/-! ### Classes -/

/-- The first character of a class, which may be escaped, and what follows it. -/
def classChar? : List Char → Option (CharSet × List Char)
  | [] => none
  | '\\' :: c :: s => (escape? c).map fun set => (set, s)
  | '\\' :: [] => none
  | c :: s => some (.single c, s)

/-- The next member of a class, a character or a range, and what follows it. A hyphen in front of the
closing bracket or of another hyphen makes no range, and named sets are no bounds of one. -/
def classItem? (s : List Char) : Option (CharSet × List Char) :=
  match classChar? s with
  | none => none
  | some (set, '-' :: c :: rest) =>
    if c = ']' ∨ c = '-' then some (set, '-' :: c :: rest)
    else
      match set, classChar? (c :: rest) with
      | .range low _, some (.range _ high, rest) =>
        if high < low then none else some (.range low high, rest)
      | _, _ => none
  | some (set, rest) => some (set, rest)

def namedSet? : List Char → Option (CharSet × List Char)
  | ':' :: s =>
    let (isNegated, s) : Bool × List Char :=
      match s with
      | '^' :: s => (true, s)
      | s => (false, s)
    let name := s.takeWhile (· != ':')
    match s.drop name.length, CharSet.named.find? fun n => n.1.toList == name with
    | ':' :: ']' :: rest, some (_, ranges) =>
      let set := CharSet.ofRanges ranges
      some (if isNegated then .complement set else set, rest)
    | _, _ => none
  | _ => none

/-- The operator at the start of a part of a class, and what follows it. -/
def setOperator? : List Char → Option (SetOperator × List Char)
  | '&' :: '&' :: s => some (.intersection, s)
  | '-' :: '-' :: s => some (.difference, s)
  | '~' :: '~' :: s => some (.symmetricDifference, s)
  | _ => none

/-- What was read of a class. -/
structure OpenClass where
  isNegated : Bool
  /-- The set in front of the last operator, and that operator. -/
  before : Option (SetOperator × CharSet)
  /-- The members behind the last operator. -/
  members : CharSet

namespace OpenClass

def add (k : OpenClass) (set : CharSet) : OpenClass :=
  { k with members := k.members.union set }

def whole (k : OpenClass) : CharSet :=
  match k.before with
  | none => k.members
  | some (op, set) => .combined op set k.members

/-- The set that a class stands for. -/
def close (k : OpenClass) : CharSet :=
  if k.isNegated then .complement k.whole else k.whole

def operate (k : OpenClass) (op : SetOperator) : OpenClass :=
  { k with before := some (op, k.whole), members := .none }

/-- The start of a class behind its opening bracket, and what follows it. Hyphens in the first places
are members, and so is a closing bracket in the very first one. -/
def start (s : List Char) : OpenClass × List Char :=
  let (isNegated, s) : Bool × List Char :=
    match s with
    | '^' :: s => (true, s)
    | s => (false, s)
  match s with
  | ']' :: s => (⟨isNegated, none, .single ']'⟩, s)
  | '-' :: s => (⟨isNegated, none, .single '-'⟩, s.dropWhile (· == '-'))
  | s => (⟨isNegated, none, .none⟩, s)

end OpenClass

/-- The rest of a class up to its closing bracket, and what follows that. A class may hold others;
those around it are `outer`. -/
def classRest? : Nat → List OpenClass → OpenClass → List Char → Option (CharSet × List Char)
  | 0, _, _, _ => none
  | fuel + 1, outer, k, s =>
    match s with
    | [] => none
    | ']' :: rest =>
      match outer with
      | [] => some (k.close, rest)
      | around :: outer => classRest? fuel outer (around.add k.close) rest
    | '[' :: rest =>
      match namedSet? rest with
      | some (set, rest) => classRest? fuel outer (k.add set) rest
      | none =>
        let (inner, rest) := OpenClass.start rest
        classRest? fuel (k :: outer) inner rest
    | s =>
      match setOperator? s with
      | some (op, rest) => classRest? fuel outer (k.operate op) rest
      | none =>
        match classItem? s with
        | some (set, rest) => classRest? fuel outer (k.add set) rest
        | none => none

/-- The class behind an opening bracket, and what follows it. Every step reads a character. -/
def charClass? (s : List Char) : Option (CharSet × List Char) :=
  let (k, rest) := OpenClass.start s
  classRest? (rest.length + 1) [] k rest

/-! ### Repetitions -/

def numeral? (s : List Char) : Option (Nat × List Char) :=
  let digits := s.takeWhile Char.isDigit
  if digits.isEmpty then none
  else
    some (digits.foldl (fun n c => 10 * n + (c.toNat - '0'.toNat)) 0, s.dropWhile Char.isDigit)

def bounds? (s : List Char) : Option (Nat × Option Nat × List Char) :=
  match numeral? s with
  | none => none
  | some (least, '}' :: rest) => some (least, some least, rest)
  | some (least, ',' :: '}' :: rest) => some (least, none, rest)
  | some (least, ',' :: rest) =>
    match numeral? rest with
    | some (most, '}' :: rest) => if most < least then none else some (least, some most, rest)
    | _ => none
  | some _ => none

/-- A repetition, which a question mark behind it makes lazy, and what follows it. -/
def repMark (least : Nat) (most : Option Nat) : List Char → Mark × List Char
  | '?' :: s => (.rep least most false, s)
  | s => (.rep least most true, s)

/-! ### All marks -/

def mark? : List Char → Option (Mark × List Char)
  | [] => none
  | '\\' :: c :: s => (escape? c).map fun set => (.char set, s)
  | '\\' :: [] => none
  | '[' :: s => (charClass? s).map fun (set, s) => (.char set, s)
  | '(' :: '?' :: ':' :: s => some (.opening false, s)
  | '(' :: '?' :: _ => none
  | '(' :: s => some (.opening true, s)
  | ')' :: s => some (.closing, s)
  | '|' :: s => some (.bar, s)
  | '^' :: s => some (.textStart, s)
  | '$' :: s => some (.textEnd, s)
  | '.' :: s => some (.char .any, s)
  | '*' :: s => some (repMark 0 none s)
  | '+' :: s => some (repMark 1 none s)
  | '?' :: s => some (repMark 0 (some 1) s)
  | '{' :: s => (bounds? s).map fun (least, most, s) => repMark least most s
  | c :: s => some (.char (.single c), s)

def marksOf (s : List Char) : Option (List Mark) :=
  match s with
  | [] => some []
  | c :: t =>
    match mark? (c :: t) with
    | none => none
    | some (m, rest) =>
      if rest.length < (c :: t).length then (marksOf rest).map (m :: ·) else none
termination_by s.length
decreasing_by assumption

/-! ## Trees -/

/-- What is read of an open group: its number if it is remembered, the branches that are done, and
the parts of the branch that is not, the last part first. -/
structure OpenGroup where
  number : Option Nat
  branches : Option Expr
  parts : List Expr

/-- The parts of a branch, in reverse, as one pattern. -/
def seqOf : List Expr → Expr
  | [] => .empty
  | [a] => a
  | a :: rest => .seq (seqOf rest) a

namespace OpenGroup

def start (number : Option Nat) : OpenGroup := ⟨number, none, []⟩

def push (g : OpenGroup) (a : Expr) : OpenGroup :=
  { g with parts := a :: g.parts }

def content (g : OpenGroup) : Expr :=
  match g.branches with
  | none => seqOf g.parts
  | some a => .alt a (seqOf g.parts)

/-- A group whose branch is done. -/
def split (g : OpenGroup) : OpenGroup :=
  { g with branches := some g.content, parts := [] }

/-- A closed group. -/
def close (g : OpenGroup) : Expr :=
  match g.number with
  | some n => .group n g.content
  | none => g.content

end OpenGroup

/-- The pattern that some marks stand for, where `top` is the innermost open group, `outer` are the
groups around it, and `next` is the number of the next group to be remembered. -/
def build (next : Nat) (top : OpenGroup) (outer : List OpenGroup) : List Mark → Option Expr
  | [] => if outer.isEmpty then some top.content else none
  | .char set :: ms => build next (top.push (.char set)) outer ms
  | .textStart :: ms => build next (top.push .textStart) outer ms
  | .textEnd :: ms => build next (top.push .textEnd) outer ms
  | .bar :: ms => build next top.split outer ms
  | .opening true :: ms => build (next + 1) (.start (some next)) (top :: outer) ms
  | .opening false :: ms => build next (.start none) (top :: outer) ms
  | .closing :: ms =>
    match outer with
    | [] => none
    | g :: outer => build next (g.push top.close) outer ms
  | .rep least most greedy :: ms =>
    match top.parts with
    | [] => none
    | a :: parts => build next { top with parts := .rep a least most greedy :: parts } outer ms

def read (s : List Char) : Option Expr :=
  (marksOf s).bind (build 1 (.start none) [])

end StepScript.Pattern
