import StepScript.Shell.Arithmetic
import StepScript.Shell.Child
import StepScript.Shell.Field
import StepScript.Shell.Glob

/-!
# Expanding words

When a word is used, its parameters, commands and expressions give way to their values. What then
happens depends on what the word is used for: arguments are split into fields and matched with the
names of files, and patterns keep what is quoted in them apart from what is not.
-/

set_option autoImplicit false

namespace StepScript.Shell

/-! ## Purposes -/

structure Purpose where
  /-- Whether fields are made of it. -/
  fields : Bool
  /-- Whether it is a pattern. -/
  pattern : Bool
  /-- Whether it stands in double quotes. -/
  quoted : Bool
  /-- Whether it is the word of a parameter. -/
  inParam : Bool
  /-- Whether a tilde at its start stands for a folder. -/
  tilde : Bool
  /-- Whether it is an assignment, so that a tilde may stand behind an equals sign or a colon. -/
  assignment : Bool
  /-- Whether the equals sign of the assignment was passed. -/
  behindEquals : Bool
deriving DecidableEq

namespace Purpose

def text : Purpose := ⟨false, false, false, false, false, false, false⟩

def argument : Purpose := { text with fields := true, tilde := true }

def path : Purpose := { text with tilde := true }

def assign : Purpose := { text with assignment := true }

def match' : Purpose := { text with pattern := true, tilde := true }

def document : Purpose := { text with quoted := true }

def marks (p : Purpose) : Bool := p.fields || p.pattern

end Purpose

/-! ## Steps of an expansion -/

abbrev Expand := StateT Expanded Act

namespace Expand

def place : Expand Nat :=
  return (← get).atoms.size

def add (a : Atom) : Expand Unit :=
  modify fun e =>
    match e with
    | ⟨atoms, regions⟩ => ⟨atoms.push a, regions⟩

/-- A value. In quotes, a byte that may mean something means itself. -/
def addValue (p : Purpose) (value : Bytes) : Expand Unit :=
  modify fun e =>
    match e with
    | ⟨atoms, regions⟩ =>
      ⟨value.foldl (fun atoms c =>
        atoms.push (.byte c (p.marks && p.quoted && Parse.isGuarded c))) atoms, regions⟩

def recordFrom (start : Nat) (zeroOnly : Bool) : Expand Unit :=
  modify fun e => e.region start zeroOnly

def apart (body : Expand Unit) : Expand (List Atom) := do
  let ((), e) ← body.run .empty
  return e.atoms.toList

/-! ### Parameters -/

def joint (p : Purpose) (name : Bytes) : Act Bytes := do
  let first : Act Bytes := do
    return match ← Act.value? "IFS".toList with
      | none => [' ']
      | some separators => separators.take 1
  if p.fields && p.quoted && name == ['@'] then return ['\x00']
  else if p.fields && !p.quoted then
    return if (← Act.value? "IFS".toList).isSome then ['\x00'] else [' ']
  else first

def optionLetters : Act Bytes := do
  let options := (← Act.shell).options
  return "pubaCEVvxsnmiIfe".toList.filter options.contains

/-- The value of a parameter, if it has one. -/
def parameter? (p : Purpose) (name : Bytes) : Act (Option Bytes) := do
  let s ← Act.shell
  match name with
  | ['$'] => return some (Bytes.ofNat s.script)
  | ['?'] => return some (Bytes.ofNat s.status)
  | ['#'] => return some (Bytes.ofNat s.params.length)
  | ['!'] => return s.lastJob.map Bytes.ofNat
  | ['-'] => return some (← optionLetters)
  | ['@'] | ['*'] => return some ((← joint p name).intercalate s.params)
  | c :: _ =>
    if c.isDigit then
      let n := (digitsIn 10 0 name).1
      return if n = 0 then some s.name else s.params[n - 1]?
    else Act.value? name
  | [] => return none

def missing (name message : Bytes) : Expand Unit := do
  Act.fault (name ++ ": ".toList ++ message)

/-! ### Tildes -/

/-- The folder of a user, where no name is the user of the shell. -/
def home? (name : Bytes) : Act (Option Bytes) := do
  if name.isEmpty then Act.value? "HOME".toList
  else return if name == "root".toList then some "/root".toList else none

/-- A tilde at the start of a word is expanded if it stands for a folder. The answer is what follows
it. -/
def expandTilde (p : Purpose) (w : Word) : Expand Word := do
  match w with
  | .char '~' :: rest =>
    let isName : Piece → Bool := fun
      | .char c => c != '/' && !(p.assignment && c == ':')
      | _ => false
    let name := rest.takeWhile isName
    let behind := rest.drop name.length
    match behind with
    | [] | .char _ :: _ =>
      match ← home? (Word.text name) with
      | none => return w
      | some folder =>
        addValue { p with quoted := true } folder
        return behind
    | _ => return w
  | w => return w

/-! ### Words -/

/-- The unquoted characters at the start of a word up to one behind which a tilde may stand, what
follows them, and whether the equals sign of an assignment was passed. -/
def literal (p : Purpose) : Word → Bytes × Word × Bool
  | .char c :: w =>
    if p.assignment && (c == ':' || (c == '=' && !p.behindEquals)) then
      ([c], w, c == '=' || p.behindEquals)
    else
      let (more, rest, behind) := literal p w
      (c :: more, rest, behind)
  | w => ([], w, p.behindEquals)

mutual

def pieces (run : Runner) : Nat → Purpose → Bool → Word → Expand Unit
  | 0, _, _, _ => throw .bound
  | fuel + 1, p, inQuotes, w => do
    let inner : Purpose := { p with quoted := p.quoted || inQuotes, tilde := false }
    match w with
    | [] => return
    | .char _ :: _ =>
      let start ← place
      let (text, rest, behindEquals) := literal p w
      addValue { p with quoted := false } text
      if p.inParam && !p.quoted && !inQuotes then recordFrom start false
      let p := { p with behindEquals }
      let mayBeFolder :=
        p.assignment && (text.getLast? == some '=' || text.getLast? == some ':')
      pieces run fuel p inQuotes (← if mayBeFolder then expandTilde p rest else pure rest)
    | .plain c :: rest =>
      add (.byte c p.marks)
      pieces run fuel p inQuotes rest
    | .quote :: .param ['@'] .value false [] :: .quote :: rest =>
      if inQuotes then
        add .quote
        pieces run fuel p false (.param ['@'] .value false [] :: .quote :: rest)
      else
        param run fuel { inner with quoted := true } ['@'] .value false []
        pieces run fuel p inQuotes rest
    | .quote :: rest =>
      if p.marks then add .quote
      pieces run fuel p (!inQuotes) rest
    | .param name use orEmpty word :: rest =>
      param run fuel inner name use orEmpty word
      pieces run fuel p inQuotes rest
    | .output command :: rest =>
      let start ← place
      if let some command := command then
        let text := (← Act.capture run command).filter (· != '\x00')
        addValue inner (text.reverse.dropWhile (· == '\n')).reverse
      if !inner.quoted then recordFrom start false
      pieces run fuel p inQuotes rest
    | .arithmetic text :: rest =>
      let start ← place
      let text ← apart (pieces run fuel .text false text)
      addValue inner (Bytes.ofInt (← Arithmetic.evaluate (Atom.text text)))
      if !inner.quoted then recordFrom start false
      pieces run fuel p inQuotes rest

def param (run : Runner) : Nat → Purpose → Bytes → ParamUse → Bool → Word → Expand Unit
  | 0, _, _, _, _, _ => throw .bound
  | fuel + 1, p, name, use, orEmpty, word => do
    let start ← place
    if use = .unknown then Act.fault "Bad substitution".toList
    let record : Expand Unit := do
      if !p.quoted then recordFrom start false
      else if name == ['@'] && !(← Act.shell).params.isEmpty then recordFrom start true
    let whole (p : Purpose) : Expand Unit := do
      pieces run fuel p false (← if p.tilde then expandTilde p word else pure word)
    let give (value : Bytes) : Expand Unit := do
      addValue p value
      record
    -- A value that is not shown is joined as a text.
    let value ← parameter? (if use = .length || use = .useInstead then .text else p) name
    let value := if orEmpty && value == some [] then none else value
    let demanded (value : Option Bytes) : Expand Bytes := do
      if value.isNone && (← Act.hasOption 'u') then missing name "parameter not set".toList
      return value.getD []
    match use, value with
    | .unknown, _ => return
    | .useDefault, some value => give value
    | .useDefault, none => whole { p with inParam := true, tilde := true }
    | .useInstead, some _ => whole { p with inParam := true, tilde := true }
    | .useInstead, none => record
    | .value, value =>
      let text ← demanded value
      if value.isSome then give text
    | .length, value => give (Bytes.ofNat (← demanded value).length)
    | .assign, some value => give value
    | .assign, none =>
      Act.assign name (Atom.text (← apart (whole .path)))
      give ((← parameter? p name).getD [])
    | .demand, some value => give value
    | .demand, none =>
      let text := Atom.text (← apart (whole .path))
      missing name
        (if word.isEmpty then
          "parameter not set".toList ++ (if orEmpty then " or null".toList else [])
        else text)
    | .cut fromEnd longest, value =>
      let text ← demanded value
      if value.isSome then
        addValue p text
        let pattern := Atom.pattern (← apart (whole .match'))
        let n := (cutLength? fromEnd longest pattern text).getD 0
        modify fun e =>
          let e := e.forgetRegions start
          let kept := text.length - n
          { e with
            atoms :=
              if fromEnd then e.atoms.extract 0 (start + kept)
              else e.atoms.extract 0 start ++ e.atoms.extract (start + n) e.atoms.size }
        record

end

def word (run : Runner) (p : Purpose) (w : Word) : Expand Unit := do
  pieces run Parse.limit p false (← if p.tilde then expandTilde p w else pure w)

end Expand

/-! ## Uses -/

namespace Act

def expand (run : Runner) (p : Purpose) (w : Word) : Act Expanded := do
  let ((), e) ← (Expand.word run p w).run .empty
  return e

def expandText (run : Runner) (p : Purpose) (w : Word) : Act Bytes := do
  return Atom.text (← expand run p w).atoms.toList

def expandPattern (run : Runner) (w : Word) : Act Bytes := do
  return Atom.pattern (← expand run .match' w).atoms.toList

/-- The names of files that a field stands for, or its text if there are none. -/
def matchFiles (field : List Atom) : Act (List Bytes) := do
  if (← hasOption 'f') || !Atom.isPattern field then return [Atom.text field]
  match ← glob (Atom.pattern field) with
  | [] => return [Atom.text field]
  | names => return names

def expandFields (run : Runner) (w : Word) : Act (List Bytes) := do
  let e ← expand run .argument w
  let fields := e.fields (← separators) none
  return (← fields.mapM matchFiles).flatten

def expandArguments (run : Runner) (words : List Word) : Act (List Bytes) :=
  return (← words.mapM (expandFields run)).flatten

end Act

end StepScript.Shell
