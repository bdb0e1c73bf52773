import StepScript.Shell.File

/-!
# Programs

What programs have in common that a shell may start: they are told options and operands, read files
or their input, and say what went wrong behind their names.
-/

set_option autoImplicit false

namespace StepScript.Shell.Program

/-! ## Messages -/

def inQuotes (s : Bytes) : Bytes :=
  '\'' :: s ++ ['\'']

def say (program : String) (message : Bytes) : Act Unit := do
  let _ ← Act.write 2 (program.toList ++ ": ".toList ++ message ++ ['\n'])

def outputFault : Act Bytes := do
  let text : Option Stream → String := fun
    | some (.device .full _ true) => "No space left on device"
    | some (.collector ..) => "Broken pipe"
    | _ => "Bad file descriptor"
  match ← Act.stream? 1 with
  | none => return (text none).toList
  | some stream => return (text (← get).world.streams[stream]?).toList

def leave {α : Type} (status : Nat) : Act α := do
  let _ ← Act.flush
  Act.setStatus status
  throw .done

/-- The program says that it was started in a wrong way, and ends. -/
def refuse {α : Type} (program : String) (message : Bytes) : Act α := do
  say program (message ++ "\nTry '".toList ++ program.toList ++
    " --help' for more information.".toList)
  leave 1

/-! ## Arguments -/

/-- The options of one word, where `spec` lists the letters that there are, with a colon behind each
that takes an argument. -/
def letters (program : String) (spec : List Char) (rest : List Bytes) :
    Bytes → Act (List (Char × Bytes) × List Bytes)
  | [] => return ([], rest)
  | c :: more => do
    match spec.dropWhile (· != c) with
    | _ :: ':' :: _ =>
      if !more.isEmpty then return ([(c, more)], rest)
      else
        match rest with
        | [] => refuse program ("option requires an argument -- '".toList ++ [c, '\''])
        | arg :: rest => return ([(c, arg)], rest)
    | _ :: _ =>
      let (given, rest) ← letters program spec rest more
      return ((c, []) :: given, rest)
    | [] => refuse program ("invalid option -- '".toList ++ [c, '\''])

/-- The options and the operands among some arguments, of which there are at most so many. -/
def arguments (program : String) (spec : List Char) :
    Nat → List Bytes → Act (List (Char × Bytes) × List Bytes)
  | 0, args => return ([], args)
  | fuel + 1, args => do
    match args with
    | [] => return ([], [])
    | ['-', '-'] :: args => return ([], args)
    | ('-' :: c :: more) :: args =>
      let (first, args) ← letters program spec args (c :: more)
      let (given, operands) ← arguments program spec fuel args
      return (first ++ given, operands)
    | operand :: args =>
      let (given, operands) ← arguments program spec fuel args
      return (given, operand :: operands)

def read (program : String) (spec : String) (args : List Bytes) :
    Act (List (Char × Bytes) × List Bytes) :=
  arguments program spec.toList args.length args

/-- The argument of an option that was given, the last one if there are more. -/
def given? (letter : Char) (given : List (Char × Bytes)) : Option Bytes :=
  given.reverse.lookup letter

def natural? (s : Bytes) : Option Nat :=
  if !s.isEmpty && s.all Char.isDigit then some (digitsIn 10 0 s).1 else none

/-! ## Input -/

/-- The bytes of a file, where a dash stands for the input. -/
def content (name : Bytes) : Act (Except FileFault Bytes) := do
  if name == ['-'] then
    match ← Act.stream? 0 with
    | none => return .error .notText
    | some stream =>
      match ← Act.readAll stream with
      | none => return .error .notText
      | some bytes => return .ok bytes
  else
    match ← Act.entry? name with
    | some (_, .folder) => return .error .isFolder
    | _ => Act.readFile name

/-- What is done with every one of some files, or with the input if there are none. The answer is
the status. -/
def forFiles (program : String) (fault : Bytes → FileFault → Bytes) (names : List Bytes)
    (body : Bytes → Bytes → Act Unit) : Act Nat := do
  let mut status := 0
  for name in if names.isEmpty then [['-']] else names do
    match ← content name with
    | .ok bytes => body name bytes
    | .error f =>
      let _ ← Act.flush
      say program (fault name f)
      status := 1
  return status

def plainFault (name : Bytes) (f : FileFault) : Bytes :=
  name ++ ": ".toList ++ (faultText f).toList

def openFault (name : Bytes) (f : FileFault) : Bytes :=
  "cannot open '".toList ++ name ++ "' for reading: ".toList ++ (faultText f).toList

def lines (s : Bytes) : List Bytes :=
  go [] s
where
  /-- The lines of a text behind the start of a line. -/
  go (start : Bytes) : Bytes → List Bytes
    | [] => if start.isEmpty then [] else [start.reverse]
    | c :: s => if c = '\n' then ('\n' :: start).reverse :: go [] s else go (c :: start) s

def withoutEnd (line : Bytes) : Bytes :=
  line.filter (· != '\n')

/-- A text behind spaces, so that it has a width. -/
def rightAligned (width : Nat) (s : Bytes) : Bytes :=
  List.replicate (width - s.length) ' ' ++ s

end StepScript.Shell.Program
