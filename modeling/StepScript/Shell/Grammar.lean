import StepScript.Shell.Lexer

/-!
# Reading commands

Commands are read by recursive descent, one line of them at a time, since an alias that one line
defines counts in the next.
-/

set_option autoImplicit false

namespace StepScript.Shell

inductive ListPlace where
  /-- On a line of the script, at whose end it ends. -/
  | line
  /-- Between keywords, where there must be a command. -/
  | block
  /-- Where there need not be a command. -/
  | optional
deriving DecidableEq

/-- What a line of a script holds. -/
inductive Line where
  | nothing
  | command (c : Command)
  | endOfFile

namespace Parse

def expect (e : Expectation) : Parse Unit :=
  modify fun r => { r with expected := e }

/-- The fault that the last token stands where it must not, and what should stand there. -/
def unexpected {α : Type} (wanted : Option Token) : Parse α := do
  let t := (← get).token
  fail (match wanted with
    | some w => t.name ++ " unexpected (expecting " ++ w.name ++ ")"
    | none => t.name ++ " unexpected")

def demand (commands : CommandReader) (t : Token) : Parse Unit := do
  if (← token commands) ≠ t then unexpected (some t)

/-! ## Redirections -/

/-- The channel that a text of one digit names, or the end of a channel. -/
def channelOf? (s : Bytes) : Option (Option Nat) :=
  match s with
  | [c] =>
    if c.isDigit then some (some (c.toNat - '0'.toNat))
    else if c = '-' then some none
    else none
  | _ => none

def redirection (commands : CommandReader) : Parse Redirection := do
  let opening := (← get).opening
  match opening with
  | .document .. => modify fun r => { r with expected := { r.expected with delimiter := true } }
  | _ => pure ()
  if (← token commands) ≠ .word then unexpected none
  let r ← get
  match opening with
  | .file channel mode => return .file channel mode r.word
  | .copy channel =>
    match r.word.bare?.bind channelOf? with
    | some source => return .copy channel source
    | none => return .copyNamed channel r.word
  | .document channel dropsTabs =>
    let number := r.documents.size
    let announcement : Announcement := ⟨number, Word.text r.word, r.quoted, dropsTabs⟩
    set { r with
      documents := r.documents.push default
      announced := r.announced ++ [announcement] }
    return .document channel number

def redirections (commands : CommandReader) : Nat → Parse (List Redirection)
  | 0 => return []
  | fuel + 1 => do
    if (← token commands) = .redirection then
      let first ← redirection commands
      return first :: (← redirections commands fuel)
    else
      pushBack
      return []

/-! ## Simple commands -/

/-- The words from the next token on, and the token behind them. -/
def words (commands : CommandReader) : Nat → Parse (List Word × Token)
  | 0 => return ([], .endOfFile)
  | fuel + 1 => do
    match ← token commands with
    | .word =>
      let first := (← get).word
      let (rest, t) ← words commands fuel
      return (first :: rest, t)
    | t => return ([], t)

/-- What was read of a simple command, the last parts first. -/
structure SimpleReading where
  assignments : List Word
  words : List Word
  redirections : List Redirection

/-- The names that no function may have, since what they mean is a part of the shell. -/
def reservedNames : List String :=
  [".", ":", "break", "continue", "eval", "exec", "exit", "export", "local", "readonly", "return",
    "set", "shift", "times", "trap", "unset"]

/-- The rest of a simple command. If it turns out to be the definition of a function, its name is
the answer. -/
def simpleLoop (commands : CommandReader) : Nat → Bool → SimpleReading →
    Parse (SimpleReading × Option Bytes)
  | 0, _, s => return (s, none)
  | fuel + 1, inFront, s => do
    expect { Expectation.plain with aliases := inFront }
    match ← token commands with
    | .word =>
      let w := (← get).word
      if inFront && w.isAssignment then
        simpleLoop commands fuel true { s with assignments := w :: s.assignments }
      else simpleLoop commands fuel false { s with words := w :: s.words }
    | .redirection =>
      let r ← redirection commands
      simpleLoop commands fuel inFront { s with redirections := r :: s.redirections }
    | .open' =>
      match s with
      | ⟨[], [name], []⟩ =>
        demand commands .close
        match name.bare? with
        | some text =>
          if isName text && !reservedNames.contains (String.ofList text) then return (s, some text)
          else fail "Bad function name"
        | none => fail "Bad function name"
      | s =>
        pushBack
        return (s, none)
    | _ =>
      pushBack
      return (s, none)

/-! ## Commands -/

/-- What stands for all arguments where a loop names no words. -/
def allArguments : Word :=
  [.quote, .param ['@'] .value false [], .quote]

/-- The patterns of a branch from the last token on, and the token behind them. -/
def patterns (commands : CommandReader) : Nat → Parse (List Word × Token)
  | 0 => return ([], .endOfFile)
  | fuel + 1 => do
    let first := (← get).word
    match ← token commands with
    | .pipe =>
      let _ ← token commands
      let (rest, t) ← patterns commands fuel
      return (first :: rest, t)
    | t => return ([first], t)

mutual

/-- A list of commands, or nothing at the end of a script or of a line. -/
def list (place : ListPlace) : Nat → Parse Line
  | 0 => return .endOfFile
  | fuel + 1 => listLoop place true fuel none

def listLoop (place : ListPlace) (isFirst : Bool) : Nat → Option Command → Parse Line
  | 0, _ => return .endOfFile
  | fuel + 1, before => do
    let commands := commandsIn fuel
    let answer : Line :=
      match before with
      | some c => .command c
      | none => .nothing
    let onLine := place == .line
    expect { Expectation.commandBelow with skipNewlines := !onLine }
    match ← token commands with
    | .newline =>
      readDocuments commands
      return answer
    | .endOfFile => endOfList onLine commands answer
    | t =>
      pushBack
      if (place == .optional || (place == .block && !isFirst)) && t.endsList then return answer
      let c ← andOr fuel
      let t ← token commands
      let c := if t = .background then inBackground c else c
      let all :=
        match before with
        | some b => .sequence b c
        | none => c
      match t with
      | .endOfFile => endOfList onLine commands (.command all)
      | .newline =>
        pushBack
        listLoop place false fuel (some all)
      | .background | .semicolon => listLoop place false fuel (some all)
      | _ =>
        if onLine then unexpected none
        pushBack
        return .command all
where
  /-- The end of a list at the end of the script. -/
  endOfList (onLine : Bool) (commands : CommandReader) (answer : Line) : Parse Line := do
    readDocuments commands
    pushBack
    modify fun r => { r with token := .endOfFile }
    match answer with
    | .nothing => return if onLine then .endOfFile else .nothing
    | answer => return answer
  /-- A command that nobody waits for. -/
  inBackground : Command → Command
    | .pipeline stages _ => .pipeline stages true
    | .redirected _ body redirections => .background body redirections
    | c => .background c []

/-- A list that must hold a command. It holds none only at the end of the script, where what should
stand behind the list is missed next. -/
def block : Nat → Parse Command
  | 0 => unexpected none
  | fuel + 1 => do
    match ← list .block fuel with
    | .command c => return c
    | _ => return default

def commandsIn : Nat → CommandReader
  | 0, _ => unexpected none
  | fuel + 1, place => do
    let commands := commandsIn fuel
    let line ← list .optional fuel
    match place with
    | .parentheses =>
      demand commands .close
      let r ← get
      set { r with rest := [] }
      readDocuments commands
      modify fun s => { s with rest := r.rest, line := r.line }
    | .text => readDocuments commands
    match line with
    | .command c => return some c
    | _ => return none

def andOr : Nat → Parse Command
  | 0 => unexpected none
  | fuel + 1 => do andOrLoop fuel (← pipeline fuel)

def andOrLoop : Nat → Command → Parse Command
  | 0, c => return c
  | fuel + 1, first => do
    match ← token (commandsIn fuel) with
    | .and =>
      expect .commandBelow
      andOrLoop fuel (.both first (← pipeline fuel))
    | .or =>
      expect .commandBelow
      andOrLoop fuel (.either first (← pipeline fuel))
    | _ =>
      pushBack
      return first

def pipeline : Nat → Parse Command
  | 0 => unexpected none
  | fuel + 1 => do
    let commands := commandsIn fuel
    let isNegated ←
      if (← token commands) = .keyword .not then
        expect .command
        pure true
      else
        pushBack
        pure false
    let first ← command fuel
    let c ←
      if (← token commands) = .pipe then
        let rest ← stages fuel
        pure (.pipeline (first :: rest) false)
      else
        pushBack
        pure first
    return if isNegated then .negated c else c

def stages : Nat → Parse (List Command)
  | 0 => unexpected none
  | fuel + 1 => do
    expect .commandBelow
    let first ← command fuel
    if (← token (commandsIn fuel)) = .pipe then return first :: (← stages fuel)
    else
      pushBack
      return [first]

def branches : Nat → Command → Parse Command
  | 0, _ => unexpected none
  | fuel + 1, test => do
    let commands := commandsIn fuel
    demand commands (.keyword .then')
    let body ← block fuel
    match ← token commands with
    | .keyword .elif =>
      let next ← block fuel
      return .branch test body (some (← branches fuel next))
    | .keyword .else' => return .branch test body (some (← block fuel))
    | _ =>
      pushBack
      return .branch test body none

/-- The branches of a choice up to its end, from the last token `t` on. -/
def choices : Nat → Token → Parse (List (List Word × Option Command))
  | 0, _ => unexpected none
  | fuel + 1, t => do
    let commands := commandsIn fuel
    if t = .keyword .esac then return []
    if t = .open' then let _ ← token commands
    let (patterns, t) ← patterns commands limit
    if t ≠ .close then unexpected (some .close)
    let body : Option Command ←
      match ← list .optional fuel with
      | .command c => pure (some c)
      | _ => pure none
    expect { Expectation.commandBelow with aliases := false }
    match ← token commands with
    | .keyword .esac => return [(patterns, body)]
    | .endCase =>
      expect { Expectation.commandBelow with aliases := false }
      return (patterns, body) :: (← choices fuel (← token commands))
    | _ => unexpected (some .endCase)

def command : Nat → Parse Command
  | 0 => unexpected none
  | fuel + 1 => do
    let commands := commandsIn fuel
    let line := (← get).line
    match ← token commands with
    | .keyword .if' =>
      let test ← block fuel
      let c ← branches fuel test
      demand commands (.keyword .fi)
      redirected fuel line c
    | .keyword .while' => loop fuel line false
    | .keyword .until' => loop fuel line true
    | .keyword .for' =>
      let t ← token commands
      let r ← get
      match r.word.bare? with
      | some name =>
        if t ≠ .word || r.quoted || !isName name then fail "Bad for loop variable"
        expect .commandBelow
        let words : List Word ←
          match ← token commands with
          | .keyword .in' =>
            let (words, t) ← words commands limit
            if t ≠ .newline && t ≠ .semicolon then unexpected none
            pure words
          | .semicolon => pure [allArguments]
          | _ =>
            pushBack
            pure [allArguments]
        expect .commandBelow
        demand commands (.keyword .do')
        let body ← block fuel
        demand commands (.keyword .done)
        redirected fuel line (.each line name words body)
      | none => fail "Bad for loop variable"
    | .keyword .case' =>
      demand commands .word
      let subject := (← get).word
      expect .commandBelow
      demand commands (.keyword .in')
      expect { Expectation.commandBelow with aliases := false }
      let branches ← choices fuel (← token commands)
      redirected fuel line (.select line subject branches)
    | .open' =>
      let body ← block fuel
      demand commands .close
      redirected fuel line (.subshell line body [])
    | .keyword .openBrace =>
      let body ← block fuel
      demand commands (.keyword .closeBrace)
      redirected fuel line body
    | .word | .redirection =>
      pushBack
      simple fuel (← get).line
    | _ => unexpected none

def loop : Nat → Nat → Bool → Parse Command
  | 0, _, _ => unexpected none
  | fuel + 1, line, untilSuccess => do
    let commands := commandsIn fuel
    let test ← block fuel
    demand commands (.keyword .do')
    let body ← block fuel
    demand commands (.keyword .done)
    redirected fuel line (.loop untilSuccess test body)

def redirected : Nat → Nat → Command → Parse Command
  | 0, _, c => return c
  | fuel + 1, line, c => do
    expect .command
    match ← redirections (commandsIn fuel) limit with
    | [] => return c
    | redirections =>
      match c with
      | .subshell at' body _ => return .subshell at' body redirections
      | c => return .redirected line c redirections

def simple : Nat → Nat → Parse Command
  | 0, _ => unexpected none
  | fuel + 1, line => do
    let (s, name) ← simpleLoop (commandsIn fuel) limit true ⟨[], [], []⟩
    match name with
    | some name =>
      expect .commandBelow
      let at' := (← get).line
      return .define at' name (← command fuel)
    | none =>
      return .simple line s.assignments.reverse s.words.reverse s.redirections.reverse

end

def nextLine : Parse Line := do
  modify fun r => { r with pushedBack := false, expected := .plain, announced := [] }
  list .line limit

end Parse

end StepScript.Shell
