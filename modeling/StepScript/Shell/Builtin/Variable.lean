import StepScript.Shell.Field
import StepScript.Shell.File
import StepScript.Shell.Setting

/-!
# Commands for variables and other names

Commands that set, show, mark and forget variables, functions and aliases, and that set variables to
what is read.
-/

set_option autoImplicit false

namespace StepScript.Shell.Builtin

/-! ## Showing -/

/-- Variables in the order of their names, each behind some words and so that it could be read
back. -/
def showVariables (words : Bytes) (shown : Variable → Bool) : Act Unit := do
  let vars := ((← Act.shell).vars.filter fun v => shown v.2).mergeSort fun a b =>
    !b.1.comesBefore a.1
  for (name, v) in vars do
    Act.emit ((if words.isEmpty then [] else words ++ [' ']) ++ name ++
      (match v.value with
        | some value => '=' :: quoted value
        | none => []) ++ ['\n'])

/-! ## Marks -/

/-- Variables are marked as seen by programs, or as guarded. -/
def markAll (name : String) (exported readonly : Bool) (args : List Bytes) : Act Nat := do
  let s ← Act.switches "p" args
  if !s.given.isEmpty || s.operands.isEmpty then
    showVariables name.toList fun v => (exported && v.exported) || (readonly && v.readonly)
  else
    for arg in s.operands do
      match splitAssignment arg with
      | (name, some value) =>
        Act.checkName name
        Act.put name value exported readonly
      | (name, none) => Act.mark name exported readonly
  return 0

def unset (args : List Bytes) : Act Nat := do
  let s ← Act.switches "vf" args
  let functions := (s.given.getLast?.map (·.1)) == some 'f'
  for name in s.operands do
    if functions then
      Act.change fun s => { s with functions := s.functions.filter (·.1 != name) }
    else Act.unset name
  return 0

def local' (args : List Bytes) : Act Nat := do
  if (← Act.shell).hidden.isEmpty then Act.fault "not in a function".toList
  for arg in args do
    if arg == ['-'] then
      Act.change fun s =>
        { s with
          hidden := match s.hidden with
            | [] => []
            | scope :: rest => (.options s.options :: scope) :: rest }
    else
      match splitAssignment arg with
      | (name, value) => Act.hide name value false
  return 0

/-- Options and arguments are set, or all variables are shown. -/
def set (args : List Bytes) : Act Nat := do
  if args.isEmpty then showVariables [] fun v => v.value.isSome
  else
    let settings ← Act.readSettings false args.length args
    if settings.clears || !settings.rest.isEmpty then Act.setParams settings.rest
  return 0

/-! ## Options of scripts -/

/-- What became of the reading of one option. -/
structure OptionRead where
  /-- The letter that is told. -/
  letter : Char
  /-- The number of the next argument. -/
  next : Nat
  /-- The place in the argument in front of it, if options are left in that. -/
  offset : Option Nat
  status : Nat

/-- The argument of an option is set, or taken away. -/
def setOptionArgument : Option Bytes → Act Unit
  | some value => Act.assign "OPTARG".toList value
  | none => Act.unset "OPTARG".toList

/-- The letter of an option is told that there is something wrong with. A colon in front of the
letters that are known asks for silence. -/
def wrongOption (silent : Bool) (letter told : Char) (message : Bytes) : Act Char := do
  if silent then
    setOptionArgument (some [letter])
    return told
  else
    let _ ← Act.write 2 (message ++ ['\n'])
    setOptionArgument none
    return '?'

def readOption (known : Bytes) (args : List Bytes) : Act OptionRead := do
  let s ← Act.shell
  let ind := s.nextOption
  let current : Bytes :=
    match s.optionOffset, ind with
    | some offset, n + 2 => (args[n]?.getD []).drop offset
    | _, _ => []
  let fresh : Option (Bytes × Nat) :=
    if !current.isEmpty then some (current, ind)
    else
      match args[ind - 1]? with
      | some ('-' :: c :: letters) => some (c :: letters, ind + 1)
      | _ => none
  match fresh with
  | none => return ⟨'?', ind, none, 1⟩
  | some (['-'], next) => if current.isEmpty then return ⟨'?', next, none, 1⟩ else found ['-'] next
  | some (letters, next) => found letters next
where
  /-- The option at the start of some letters of the argument in front of `next`. -/
  found (letters : Bytes) (next : Nat) : Act OptionRead := do
    let silent := known.head? == some ':'
    let list := if silent then known.drop 1 else known
    match letters with
    | [] => return ⟨'?', next, none, 1⟩
    | c :: rest =>
      let offset : Option Nat :=
        some ((args[next - 2]?.getD []).length - rest.length)
      match list.dropWhile (· != c) with
      | [] =>
        let told ← wrongOption silent c '?' ("Illegal option -".toList ++ [c])
        return ⟨told, next, offset, 0⟩
      | _ :: ':' :: _ =>
        if !rest.isEmpty then
          setOptionArgument (some rest)
          return ⟨c, next, none, 0⟩
        else
          match args[next - 1]? with
          | some arg =>
            setOptionArgument (some arg)
            return ⟨c, next + 1, none, 0⟩
          | none =>
            let told ← wrongOption silent c ':' ("No arg for -".toList ++ c :: " option".toList)
            return ⟨told, next, offset, 0⟩
      | _ =>
        setOptionArgument (some [])
        return ⟨c, next, offset, 0⟩

def getopts (args : List Bytes) : Act Nat := do
  match args with
  | known :: name :: rest =>
    let options ← if rest.isEmpty then pure (← Act.shell).params else pure rest
    if options.length + 1 < (← Act.shell).nextOption then
      Act.change fun s => { s with nextOption := 1, optionOffset := none }
    let r ← readOption known options
    Act.put "OPTIND".toList (Bytes.ofNat r.next) false false
    Act.assign name [r.letter]
    Act.change fun s => { s with nextOption := r.next, optionOffset := r.offset }
    return r.status
  | _ => Act.fault "Usage: getopts optstring var [arg...]".toList

/-! ## Reading -/

/-- A line of input as it is read. -/
structure LineRead where
  text : Expanded
  /-- Where the characters start that may be separators. -/
  start : Nat
  /-- Whether the line has an end. -/
  ended : Bool

/-- The rest of a line of input. A backslash takes away what the next character means, and a line end
altogether. -/
def readLine (raw : Bool) : Nat → LineRead → Act LineRead
  | 0, l => return l
  | fuel + 1, l => do
    let add (c : Char) : Expanded := { l.text with atoms := l.text.atoms.push (.byte c false) }
    match ← Act.readByte 0 with
    | none | some none => return { l with text := l.text.region l.start false, ended := false }
    | some (some c) =>
      if c = '\x00' then readLine raw fuel l
      else if c = '\n' then return { l with text := l.text.region l.start false, ended := true }
      else if c = '\\' && !raw then
        let text := l.text.region l.start false
        match ← Act.readByte 0 with
        | none | some none => return { l with text, ended := false }
        | some (some '\n') => readLine raw fuel { l with text, start := text.atoms.size }
        | some (some c) =>
          let text := { text with atoms := text.atoms.push (.byte c true) }
          readLine raw fuel { l with text, start := text.atoms.size }
      else readLine raw fuel { l with text := add c }

/-- A line of input is read into variables, field by field. The last one gets what is left. -/
def read (args : List Bytes) : Act Nat := do
  let s ← Act.switches "p:r" args
  if s.operands.isEmpty then Act.fault "arg count".toList
  let raw := s.given.any (·.1 == 'r')
  let l ← readLine raw (Nat.pow 2 62) ⟨.empty, 0, false⟩
  let fields := (l.text.fields (← Act.separators) (some s.operands.length)).map Atom.text
  for (name, i) in s.operands.zipIdx do
    Act.assign name (fields[i]?.getD [])
  return if l.ended then 0 else 1

/-! ## Aliases -/

def showAlias (a : Bytes × Bytes) : Act Unit :=
  Act.emit (a.1 ++ '=' :: quoted a.2 ++ ['\n'])

/-- Names in the order in which they are shown: by the remainder of a number that the bytes of the
name make. -/
def inOrder (divisor : Nat) (names : List (Bytes × Bytes)) : List (Bytes × Bytes) :=
  let rank (name : Bytes) : Nat :=
    (16 * (name.headD '\x00').toNat + (name.map Char.toNat).foldl (· + ·) 0) % divisor
  names.mergeSort fun a b => rank a.1 ≤ rank b.1

def alias' (args : List Bytes) : Act Nat := do
  if args.isEmpty then
    (inOrder 39 (← Act.shell).aliases).forM showAlias
    return 0
  let mut status := 0
  for arg in args do
    -- The first character belongs to the name, whatever it is.
    match splitAssignment (arg.drop 1) with
    | (rest, some value) =>
      let name := arg.take 1 ++ rest
      Act.change fun s => { s with aliases := Act.assocPut name value s.aliases }
    | (_, none) =>
      match (← Act.shell).aliases.find? (·.1 == arg) with
      | some a => showAlias a
      | none =>
        let _ ← Act.write 2 ("alias: ".toList ++ arg ++ " not found\n".toList)
        status := 1
  return status

def unalias (args : List Bytes) : Act Nat := do
  let s ← Act.switches "a" args
  if !s.given.isEmpty then
    Act.change fun s => { s with aliases := [] }
    return 0
  let mut status := 0
  for name in s.operands do
    if (← Act.shell).aliases.any (·.1 == name) then
      Act.change fun s => { s with aliases := Act.assocDrop name s.aliases }
    else
      let _ ← Act.write 2 ("unalias: ".toList ++ name ++ " not found\n".toList)
      status := 1
  return status

end StepScript.Shell.Builtin
