import StepScript.Shell.Source

/-!
# Tokens and words

What a character means in a word depends on the quotes and the parameters around it. The reading of
a word keeps a stack of **frames**, one for every part of the word with quotes of its own, and a
stack of **open pieces**, which are parameters and arithmetic expressions whose ends were not read.

Where a word holds a command, the command is read by a function that comes from outside.
-/

set_option autoImplicit false

namespace StepScript.Shell

/-! ## Frames -/

inductive Quoting where
  | none | single | double | arithmetic
deriving DecidableEq

/-- A part of a word with quotes of its own. -/
structure Frame where
  quoting : Quoting
  /-- Whether backslashes are kept in front of most characters. -/
  isDouble : Bool
  /-- Whether double quotes are open inside of a parameter. -/
  innerDouble : Bool
  /-- How many parameters are open. -/
  params : Nat
  /-- How many of them are in double quotes. -/
  doubleParams : Nat
  /-- Whether the frame ends with the last parameter. -/
  endsWithParams : Bool
  /-- How many parentheses are open. -/
  parentheses : Nat

def Frame.start (quoting : Quoting) (isDouble : Bool) : Frame :=
  ⟨quoting, isDouble, false, 0, 0, false, 0⟩

/-- A piece whose end was not read. -/
inductive OpenPiece where
  | param (name : Bytes) (use : ParamUse) (orEmpty : Bool)
  | arithmetic

def OpenPiece.close : OpenPiece → Word → Piece
  | .param name use orEmpty, word => .param name use orEmpty word
  | .arithmetic, text => .arithmetic text

/-- The state of the reading of a word. -/
structure WordReading where
  frame : Frame
  /-- The frames around it. -/
  outer : List Frame
  /-- The pieces of the innermost open piece, the last one first. -/
  pieces : Word
  /-- The open pieces around it, each with the pieces in front of it. -/
  opened : List (OpenPiece × Word)
  /-- Whether a part of the word was quoted. -/
  quoted : Bool

namespace WordReading

def start (quoting : Quoting) : WordReading :=
  ⟨.start quoting (quoting == .double), [], [], [], false⟩

def add (w : WordReading) (p : Piece) : WordReading :=
  { w with pieces := p :: w.pieces }

def openPiece (w : WordReading) (p : OpenPiece) : WordReading :=
  { w with pieces := [], opened := (p, w.pieces) :: w.opened }

def closePiece (w : WordReading) : WordReading :=
  match w.opened with
  | [] => w
  | (p, before) :: opened =>
    { w with pieces := p.close w.pieces.reverse :: before, opened }

def push (w : WordReading) (f : Frame) : WordReading :=
  { w with frame := f, outer := w.frame :: w.outer }

def pop (w : WordReading) : WordReading :=
  match w.outer with
  | [] => w
  | f :: outer => { w with frame := f, outer }

end WordReading

/-! ## Parameters -/

def isSpecialParam (c : Char) : Bool :=
  c.isDigit || c ∈ ['!', '#', '$', '*', '-', '?', '@']

def paramUse? : Char → Option ParamUse
  | '}' => some .value
  | '-' => some .useDefault
  | '+' => some .useInstead
  | '?' => some .demand
  | '=' => some .assign
  | _ => none

/-- Where the commands in a word are read: behind an opening parenthesis up to the closing one, or
as a text of their own. -/
inductive CommandPlace where
  | parentheses
  | text
deriving DecidableEq

/-- The reading of the commands in words. -/
abbrev CommandReader := CommandPlace → Parse (Option Command)

namespace Parse

/-- The characters of a name from `c` on that satisfy a test, and the first one that does not. -/
def nameFrom (isPart : Char → Bool) : Nat → Bytes → Option Char → Parse (Bytes × Option Char)
  | 0, name, c => return (name.reverse, c)
  | fuel + 1, name, some c => do
    if isPart c then nameFrom isPart fuel (c :: name) (← nextJoined)
    else return (name.reverse, some c)
  | _, name, none => return (name.reverse, none)

/-- What a parameter in braces is called and what is done with it. -/
structure ParamHead where
  name : Bytes
  use : ParamUse
  orEmpty : Bool

/-- What is done with a parameter in braces, from the character behind its name on. -/
def paramOperator (name : Bytes) (c : Option Char) : Parse ParamHead := do
  match c with
  | some ':' =>
    let c ← nextJoined
    return ⟨name, (c.bind paramUse?).getD .unknown, true⟩
  | some '%' | some '#' =>
    let d ← nextJoined
    if d == c then return ⟨name, .cut (c == some '%') true, false⟩
    else
      unread d
      return ⟨name, .cut (c == some '%') false, false⟩
  | c => return ⟨name, (c.bind paramUse?).getD .unknown, false⟩

def badParam (name : Bytes) (c : Option Char) : Parse ParamHead := do
  unread c
  return ⟨name, .unknown, false⟩

/-- The name at the start of a parameter in braces, if there is one, and the character behind it. -/
def paramName (c : Option Char) : Parse (Option (Bytes × Option Char)) := do
  match c with
  | some d =>
    if isNameStart d then return some (← nameFrom isNamePart limit [] c)
    else if d.isDigit then return some (← nameFrom Char.isDigit limit [] c)
    else return none
  | none => return none

/-- A parameter in braces whose length is asked for. The closing brace is read later. -/
def paramLength (name : Bytes) (c : Option Char) : Parse ParamHead := do
  unread c
  return ⟨name, if c == some '}' then .length else .unknown, false⟩

/-- A parameter in braces, from the first character behind the brace on. -/
def bracedParam (c : Option Char) : Parse ParamHead := do
  match ← paramName c with
  | some (name, c) => paramOperator name c
  | none =>
    match c with
    | none | some '}' => badParam [] c
    | some sign =>
      let c ← nextJoined
      if sign = '#' then
        match c with
        | some d =>
          if isNamePart d then
            match ← paramName c with
            | some (name, c) => paramLength name c
            | none => badParam [] c
          else
            let after ← nextJoined
            if d == '}' || after != some '}' then
              unread after
              paramOperator ['#'] c
            else if isSpecialParam d then paramLength [d] after
            else badParam [] after
        | none => badParam ['#'] c
      else if isSpecialParam sign then paramOperator [sign] c
      else badParam [] c

end Parse

/-! ## Words -/

/-- What ends a here-document, and whether tabs are dropped from the starts of its lines. -/
structure Delimiter where
  text : Bytes
  dropsTabs : Bool

namespace Parse

/-- The characters of a line from `c` on, unless the line ends the here-document. -/
def checkDelimiter (d : Option Delimiter) (c : Option Char) : Parse (Option Char) := do
  match d with
  | none => return c
  | some d =>
    unread c
    modifyGet fun r =>
      let line := if d.dropsTabs then r.rest.dropWhile (· == '\t') else r.rest
      let behind := line.drop d.text.length
      if line.take d.text.length == d.text && (behind.isEmpty || behind.head? == some '\n') then
        (none, { r with rest := behind.drop 1, line := r.line + 1 })
      else (line.head?, { r with rest := line.drop 1 })

/-- The text of a command in backquotes, up to the closing one. Some backslashes are taken away
before it is read as a command. -/
def backquoted (isDouble : Bool) : Nat → Bytes → Parse Bytes
  | 0, text => return text.reverse
  | fuel + 1, text => do
    match ← nextJoined with
    | none => fail "EOF in backquote substitution"
    | some c =>
      if c = Char.ofNat 96 then return text.reverse
      else if c = '\\' then
        match ← next with
        | none => backquoted isDouble fuel ('\\' :: text)
        | some d =>
          if d = '\\' || d = Char.ofNat 96 || d = '$' || (isDouble && d = '"') then
            backquoted isDouble fuel (d :: text)
          else backquoted isDouble fuel (d :: '\\' :: text)
      else
        if c = '\n' then countLine
        backquoted isDouble fuel (c :: text)

/-- A command in backquotes. Its text is read on its own, and what is left of it is dropped. -/
def backquotedCommand (commands : CommandReader) (isDouble : Bool) : Parse (Option Command) := do
  let text ← backquoted isDouble limit []
  let outer ← get
  set { outer with rest := text, line := 1, announced := [] }
  let command ← commands .text
  modify fun r =>
    { r with rest := outer.rest, line := outer.line, announced := outer.announced,
             pushedBack := false }
  return command

def parenthesizedCommand (commands : CommandReader) : Parse (Option Command) := do
  let outer ← get
  set { outer with announced := [] }
  let command ← commands .parentheses
  modify fun r => { r with announced := outer.announced }
  return command

def dollar (commands : CommandReader) (w : WordReading) : Parse WordReading := do
  let c ← nextJoined
  let literal : Parse WordReading := do
    unread c
    return w.add (.char '$')
  if (← get).expected.delimiter then literal
  else
    match c with
    | none => literal
    | some '(' =>
      let d ← nextJoined
      if d == some '(' then
        return (w.openPiece .arithmetic).push (.start .arithmetic true)
      else
        unread d
        return w.add (.output (← parenthesizedCommand commands))
    | some '{' =>
      let head ← bracedParam (← nextJoined)
      if head.use = .value && !head.orEmpty then
        return w.add (.param head.name .value false [])
      else
        let inner : Quoting :=
          match head.use with
          | .cut .. => .none
          | _ => if w.frame.quoting = .arithmetic then .double else w.frame.quoting
        let w := w.openPiece (.param head.name head.use head.orEmpty)
        let w :=
          if inner ≠ w.frame.quoting || w.frame.innerDouble then
            w.push { Frame.start inner (inner != .none) with endsWithParams := true }
          else w
        let f := w.frame
        return { w with
          frame := { f with
            params := f.params + 1
            doubleParams := if f.isDouble then f.doubleParams + 1 else f.doubleParams } }
    | some d =>
      if isNameStart d then
        let (name, c) ← nameFrom isNamePart limit [] c
        unread c
        return w.add (.param name .value false [])
      else if isSpecialParam d then return w.add (.param [d] .value false [])
      else literal

def escape (isDocument : Bool) (w : WordReading) : Parse WordReading := do
  let f := w.frame
  match ← next with
  | none => return w.add (.plain '\\')
  | some c =>
    let keeps :=
      f.isDouble && c != '\\' && c != Char.ofNat 96 && c != '$' &&
        (c != '"' || (isDocument && f.params == 0)) && (c != '}' || f.params == 0)
    let w := if keeps then w.add (.plain '\\') else w
    return { w.add (.plain c) with quoted := true }

/-- The characters that mean nothing in quotes but may mean something in a pattern or a path. -/
def isGuarded (c : Char) : Bool :=
  c ∈ ['!', '*', '?', '[', '=', '~', ':', '/', '-', ']', '\\']

def toggleDouble (isDocument : Bool) (w : WordReading) : WordReading :=
  let f := w.frame
  let w := { w with frame := { f with innerDouble := f.innerDouble != (f.params != 0) } }
  if isDocument then w else w.add .quote

def doubleQuote (isDocument : Bool) (w : WordReading) : WordReading :=
  let f := w.frame
  match f.quoting with
  | .none =>
    toggleDouble isDocument { w with frame := { f with quoting := .double, isDouble := true } }
  | .double =>
    if isDocument && f.params == 0 then w.add (.char '"')
    else
      let f := if f.doubleParams = 0 then { f with quoting := .none, isDouble := false } else f
      toggleDouble isDocument { w with frame := f, quoted := true }
  | _ => w.add (.char '"')

def singleQuote (isDocument : Bool) (w : WordReading) : WordReading :=
  let f := w.frame
  let marked (w : WordReading) : WordReading := if isDocument then w else w.add .quote
  match f.quoting with
  | .none => marked { w with frame := { f with quoting := .single } }
  | .single =>
    if isDocument && f.params == 0 then w.add (.char '\'')
    else
      let f := if f.doubleParams = 0 then { f with quoting := .none, isDouble := false } else f
      marked { w with frame := f, quoted := true }
  | _ => w.add (.char '\'')

def closeBrace (w : WordReading) : WordReading :=
  let f := w.frame
  if f.innerDouble || f.params == 0 then w.add (.char '}')
  else
    let w := { w with frame := { f with params := f.params - 1 } }.closePiece
    if f.params = 1 && f.endsWithParams then w.pop
    else { w with frame := { w.frame with doubleParams := f.doubleParams - 1 } }

def arithmeticParenthesis (c : Char) (w : WordReading) : Parse WordReading := do
  let f := w.frame
  if c = '(' then
    return { w.add (.char c) with frame := { f with parentheses := f.parentheses + 1 } }
  else if 0 < f.parentheses then
    return { w.add (.char c) with frame := { f with parentheses := f.parentheses - 1 } }
  else
    let d ← nextJoined
    if d == some ')' then return w.closePiece.pop
    else
      unread d
      return w.add (.char ')')

def endsWord (c : Char) : Bool :=
  c ∈ ['<', '>', '(', ')', ';', '&', '|', ' ', '\t']

def wordLoop (commands : CommandReader) (delimiter : Option Delimiter) :
    Nat → WordReading → Option Char → Parse (WordReading × Option Char)
  | 0, w, c => return (w, c)
  | _, w, none => return (w, none)
  | fuel + 1, w, some c => do
    let isDocument := delimiter.isSome
    let f := w.frame
    let following : Parse (Option Char) := nextJoined
    if c = '\n' then
      if f.quoting = .none && f.params == 0 then return (w, some c)
      countLine
      let d ← if f.quoting = .single then next else following
      wordLoop commands delimiter fuel (w.add (.char c)) (← checkDelimiter delimiter d)
    else if f.quoting = .single then
      let w :=
        if c = '\'' then singleQuote isDocument w
        else w.add (if isGuarded c && !isDocument then .plain c else .char c)
      wordLoop commands delimiter fuel w
        (← if w.frame.quoting = .single then next else following)
    else if c = '\\' then
      wordLoop commands delimiter fuel (← escape isDocument w) (← following)
    else if c = '\'' then
      let w := singleQuote isDocument w
      wordLoop commands delimiter fuel w
        (← if w.frame.quoting = .single then next else following)
    else if c = '"' then wordLoop commands delimiter fuel (doubleQuote isDocument w) (← following)
    else if c = '$' then
      wordLoop commands delimiter fuel (← dollar commands w) (← following)
    else if c = '}' then wordLoop commands delimiter fuel (closeBrace w) (← following)
    else if c = Char.ofNat 96 then
      if (← get).expected.delimiter then
        wordLoop commands delimiter fuel (w.add (.char c)) (← following)
      else
        let command ← backquotedCommand commands f.isDouble
        wordLoop commands delimiter fuel (w.add (.output command)) (← following)
    else if f.quoting = .arithmetic && (c = '(' || c = ')') then
      wordLoop commands delimiter fuel (← arithmeticParenthesis c w) (← following)
    else if f.quoting = .none && endsWord c then
      if f.params == 0 then return (w, some c)
      else wordLoop commands delimiter fuel (w.add (.char c)) (← following)
    else
      let piece : Piece :=
        if f.quoting = .double && isGuarded c then .plain c else .char c
      wordLoop commands delimiter fuel (w.add piece) (← following)

/-- A word from `c` on, and the character that ends it. What is open at its end is a fault, but a
here-document may end anywhere outside of parameters. -/
def word (commands : CommandReader) (quoting : Quoting) (delimiter : Option Delimiter)
    (c : Option Char) : Parse (WordReading × Option Char) := do
  let (w, c) ← wordLoop commands delimiter limit (.start quoting) (← checkDelimiter delimiter c)
  let f := w.frame
  if f.quoting = .arithmetic then fail "Missing '))'"
  if f.quoting ≠ .none && delimiter.isNone then fail "Unterminated quoted string"
  if f.params ≠ 0 then fail "Missing '\x7d'"
  return (w, c)

/-! ## Tokens -/

/-- The start of a redirection of a channel, behind its first character. -/
def openingOf (channel : Option Nat) (c : Char) : Parse Opening := do
  let d ← nextJoined
  if c = '>' then
    let channel := channel.getD 1
    match d with
    | some '>' => return .file channel .append
    | some '|' => return .file channel .overwrite
    | some '&' => return .copy channel
    | d =>
      unread d
      return .file channel .write
  else
    let channel := channel.getD 0
    match d with
    | some '<' =>
      let e ← nextJoined
      if e == some '-' then return .document channel true
      else
        unread e
        return .document channel false
    | some '&' => return .copy channel
    | some '>' => return .file channel .readWrite
    | d =>
      unread d
      return .file channel .read

def pushBack : Parse Unit :=
  modify fun r => { r with pushedBack := true }

def found (t : Token) : Parse Token := do
  modify fun r => { r with token := t }
  return t

def wordToken (commands : CommandReader) (c : Option Char) : Parse Token := do
  let (w, c) ← word commands .none none c
  let channel? : Option (Option Nat) :=
    if w.quoted || (c != some '>' && c != some '<') then none
    else match w.pieces with
      | [] => some none
      | [.char d] => if d.isDigit then some (some (d.toNat - '0'.toNat)) else none
      | _ => none
  match channel? with
  | some channel =>
    let opening ← openingOf channel (c.getD '>')
    modify fun r => { r with opening }
    found .redirection
  | none =>
    unread c
    modify fun r => { r with word := w.pieces.reverse, quoted := w.quoted }
    found .word

def skipComment : Parse Unit :=
  modify fun r => { r with rest := r.rest.dropWhile (· != '\n') }

def rawToken (commands : CommandReader) : Nat → Parse Token
  | 0 => found .endOfFile
  | fuel + 1 => do
    if (← get).pushedBack then
      modify fun r => { r with pushedBack := false }
      return (← get).token
    let either (d : Char) (double single : Token) : Parse Token := do
      let e ← nextJoined
      if e == some d then found double
      else
        unread e
        found single
    match ← nextJoined with
    | none => found .endOfFile
    | some ' ' | some '\t' => rawToken commands fuel
    | some '#' =>
      skipComment
      rawToken commands fuel
    | some '\n' =>
      countLine
      found .newline
    | some '&' => either '&' .and .background
    | some '|' => either '|' .or .pipe
    | some ';' => either ';' .endCase .semicolon
    | some '(' => found .open'
    | some ')' => found .close
    | some c => wordToken commands (some c)

/-- The here-documents that are announced are read, from the first line behind their command on. -/
def readDocuments (commands : CommandReader) : Parse Unit := do
  let announced := (← get).announced
  modify fun r => { r with announced := [] }
  for a in announced do
    let quoting : Quoting := if a.quoted then .single else .double
    let first ← if a.quoted then next else nextJoined
    let (w, _) ← word commands quoting (some ⟨a.delimiter, a.dropsTabs⟩) first
    let body := w.pieces.reverse
    modify fun r =>
      { r with
        documents := r.documents.set! a.number ⟨a.quoted, body⟩
        token := .word
        word := body
        quoted := w.quoted }

def tokenBelow (commands : CommandReader) : Nat → Token → Parse Token
  | 0, t => return t
  | fuel + 1, t => do
    if t ≠ .newline then return t
    readDocuments commands
    modify fun r => { r with expected := .plain }
    tokenBelow commands fuel (← rawToken commands limit)

/-- The text of the alias that a word is, with its place, unless it is in use. -/
def alias? (name : Bytes) : Parse (Option (Nat × Bytes)) := do
  let r ← get
  match r.aliases.findIdx? fun a => a.1 == name with
  | none => return none
  | some place =>
    let isInUse (c : Char) : Bool := isMark c && markedPlace c == place
    if r.passed.any isInUse || r.rest.any isInUse then return none
    else return r.aliases[place]?.map fun a => (place, a.2)

/-- The next token as `wanted` says, with what is said besides while it is read. -/
def tokenFor (commands : CommandReader) : Nat → Expectation → Parse Token
  | 0, _ => found .endOfFile
  | fuel + 1, wanted => do
    let t ← rawToken commands limit
    let t ← if wanted.skipNewlines then tokenBelow commands limit t else pure t
    let r ← get
    let wanted : Expectation :=
      { wanted with
        keywords := wanted.keywords || r.expected.keywords
        aliases := wanted.aliases || r.expected.aliases }
    set { r with expected := .plain }
    if t ≠ .word || r.quoted then return t
    match r.word.bare? with
    | none => return t
    | some text =>
      match if wanted.keywords then Keyword.ofText? text else none with
      | some k => found (.keyword k)
      | none =>
        match ← if wanted.aliases then alias? text else pure none with
        | none => return t
        | some (place, value) =>
          if !value.isEmpty then
            modify fun r =>
              { r with
                rest := value ++ aliasMark place false :: r.passed.map spentMark ++ r.rest
                passed := [] }
          tokenFor commands fuel wanted

def token (commands : CommandReader) : Parse Token := do
  tokenFor commands limit (← get).expected

end Parse

end StepScript.Shell
