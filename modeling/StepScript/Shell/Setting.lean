import StepScript.Shell.State

/-!
# Options

An option is on or off. It has a name, and most options have a letter as well.
-/

set_option autoImplicit false

namespace StepScript.Shell

/-! ## Words that start with a dash -/

/-- What stands in front of the operands of a command. -/
structure Switches where
  /-- The options, each with its argument if it takes one. -/
  given : List (Char × Bytes)
  operands : List Bytes

namespace Act

/-- The letters of one word, where `spec` lists the letters that there are, with a colon behind each
that takes an argument. The answer holds the words that are left. -/
def switchLetters (spec : List Char) (rest : List Bytes) : Bytes → Act Switches
  | [] => return ⟨[], rest⟩
  | c :: letters => do
    match spec.dropWhile (· != c) with
    | _ :: ':' :: _ =>
      if !letters.isEmpty then return ⟨[(c, letters)], rest⟩
      else
        match rest with
        | [] => fault ("No arg for -".toList ++ c :: " option".toList)
        | arg :: rest => return ⟨[(c, arg)], rest⟩
    | _ :: _ =>
      let more ← switchLetters spec rest letters
      return { more with given := (c, []) :: more.given }
    | [] => fault ("Illegal option -".toList ++ [c])

/-- The options in front of the operands of a command, of which there are at most so many words. -/
def switchesOf (spec : List Char) : Nat → List Bytes → Act Switches
  | 0, args => return ⟨[], args⟩
  | fuel + 1, args => do
    match args with
    | ['-', '-'] :: args => return ⟨[], args⟩
    | ('-' :: c :: letters) :: args =>
      let first ← switchLetters spec args (c :: letters)
      let more ← switchesOf spec fuel first.operands
      return { more with given := first.given ++ more.given }
    | args => return ⟨[], args⟩

def switches (spec : String) (args : List Bytes) : Act Switches :=
  switchesOf spec.toList args.length args

def operands (args : List Bytes) : Act (List Bytes) :=
  return (← switches "" args).operands

end Act

/-! ## Options of the shell -/

/-- The options and their letters. Those without a letter have a character that nobody writes. -/
def optionTable : List (String × Char) :=
  [("errexit", 'e'), ("noglob", 'f'), ("ignoreeof", 'I'), ("interactive", 'i'), ("monitor", 'm'),
    ("noexec", 'n'), ("stdin", 's'), ("xtrace", 'x'), ("verbose", 'v'), ("vi", 'V'),
    ("emacs", 'E'), ("noclobber", 'C'), ("allexport", 'a'), ("notify", 'b'), ("nounset", 'u'),
    ("privileged", 'p'), ("nolog", '\x01'), ("debug", '\x02')]

namespace Act

/-- An option is switched on or off. The two ways to edit lines exclude each other, and jobs cannot
be controlled without a terminal. -/
def setOption (letter : Char) (on : Bool) : Act Unit := do
  change fun s =>
    let others := s.options.filter fun c =>
      c != letter && !(on && (letter, c) ∈ [('V', 'E'), ('E', 'V')])
    { s with options := if on then letter :: others else others }
  if letter = 'm' && on then
    change fun s => { s with options := s.options.filter (· != 'm') }
    warn "can't access tty; job control turned off".toList

def setLetter (letter : Char) (on : Bool) : Act Unit := do
  if letter.isAlpha && optionTable.any (·.2 == letter) then setOption letter on
  else fault ("Illegal option -".toList ++ [letter])

def setNamed (name : Bytes) (on : Bool) : Act Unit := do
  match optionTable.find? fun o => o.1.toList == name with
  | some (_, letter) => setOption letter on
  | none => fault ("Illegal option -o ".toList ++ name)

/-- The states of all options, to be read or to be run. -/
def showOptions (toRead : Bool) : Act Unit := do
  let options := (← shell).options
  if toRead then emit "Current option settings\n".toList
  for (name, letter) in optionTable do
    let on := options.contains letter
    let name := name.toList
    if toRead then
      emit (name ++ List.replicate (16 - name.length) ' ' ++ (if on then "on\n" else "off\n").toList)
    else emit ("set ".toList ++ (if on then "-o " else "+o ").toList ++ name ++ ['\n'])

/-- What options in front of arguments say besides. -/
structure Settings where
  /-- The arguments behind the options. -/
  rest : List Bytes
  /-- Whether a command is given as an argument. -/
  hasCommand : Bool
  /-- Whether the options end in front of no argument, so that there are none. -/
  clears : Bool

/-- The letters of one word switch options on or off. The answer holds the words that are left, and
whether a command is given. -/
def setLetters (atStart on : Bool) : Bytes → List Bytes → Act (List Bytes × Bool)
  | [], rest => return (rest, false)
  | c :: letters, rest => do
    if c = 'c' && atStart then
      let (rest, _) ← setLetters atStart on letters rest
      return (rest, true)
    else if c = 'o' then
      match rest with
      | [] =>
        showOptions on
        setLetters atStart on letters []
      | name :: rest =>
        setNamed name on
        setLetters atStart on letters rest
    else if c = 'l' && atStart then setLetters atStart on letters rest
    else
      setLetter c on
      setLetters atStart on letters rest

/-- The options in front of the arguments of a shell or of the command that sets options. -/
def readSettings (atStart : Bool) : Nat → List Bytes → Act Settings
  | 0, args => return ⟨args, false, false⟩
  | fuel + 1, args => do
    let more (on : Bool) (letters : Bytes) (rest : List Bytes) : Act Settings := do
      let (rest, hasCommand) ← setLetters atStart on letters rest
      let after ← readSettings atStart fuel rest
      return { after with hasCommand := hasCommand || after.hasCommand }
    match args with
    | ['-'] :: rest =>
      if !atStart then
        setOption 'x' false
        setOption 'v' false
      return ⟨rest, false, false⟩
    | ['-', '-'] :: rest => return ⟨rest, false, !atStart && rest.isEmpty⟩
    | ('-' :: letters) :: rest => more true letters rest
    | ('+' :: letters) :: rest => more false letters rest
    | args => return ⟨args, false, false⟩

def setParams (params : List Bytes) : Act Unit :=
  change fun s => { s with params, nextOption := 1, optionOffset := none }

end Act

end StepScript.Shell
