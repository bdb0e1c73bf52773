import StepScript.Shell.Condition
import StepScript.Shell.Format
import StepScript.Shell.Program.Basic
import StepScript.Shell.Start

/-!
# Programs that do one thing

Small programs for names of files, numbers and the environment.
-/

set_option autoImplicit false

namespace StepScript.Shell.Program

/-! ## Texts -/

/-- Words on one line. Escapes are undone only if that is asked for. -/
def echo (args : List Bytes) : Act Nat := do
  let isOption (s : Bytes) : Bool :=
    match s with
    | '-' :: c :: rest => (c :: rest).all fun c => c == 'n' || c == 'e' || c == 'E'
    | _ => false
  let letters := (args.takeWhile isOption).flatMap (·.drop 1)
  let line : Bytes := [' '].intercalate (args.dropWhile isOption)
  let escapes := (letters.filter (· != 'n')).getLast? == some 'e'
  let (text, stop) := if escapes then unescape (line.length + 1) line else (line, false)
  Act.emit (if stop || letters.contains 'n' then text else text ++ ['\n'])
  return 0

/-- One line over and over, as long as somebody reads it. -/
def yes (args : List Bytes) : Act Nat := do
  let line := (if args.isEmpty then ['y'] else [' '].intercalate args) ++ ['\n']
  let block := (List.replicate (65536 / line.length + 1) line).flatten
  write block 4096
where
  /-- A text is written so many times, or until that goes wrong. -/
  write (block : Bytes) : Nat → Act Nat
    | 0 => throw .bound
    | fuel + 1 => do
      if ← Act.write 1 block then write block fuel
      else
        say "yes" ("standard output: ".toList ++ (← outputFault))
        return 1

def seq (args : List Bytes) : Act Nat := do
  let isNumber (s : Bytes) : Bool := (wholeNumber? (some 10) s).isSome
  let (own, operands) := (args.takeWhile fun a => a.head? == some '-' && !isNumber a,
    args.dropWhile fun a => a.head? == some '-' && !isNumber a)
  let (operands, separator) : List Bytes × Bytes :=
    match own, operands with
    | [['-', 's']], s :: operands => (operands, s)
    | ('-' :: 's' :: s) :: _, operands => (operands, s)
    | _, operands => (operands, ['\n'])
  let padded := own.contains ['-', 'w']
  let numbers ← operands.mapM fun s =>
    match wholeNumber? (some 10) s with
    | some n => pure n
    | none => refuse "seq" ("invalid floating point argument: ".toList ++ inQuotes s)
  let (first, step, last) : Int × Int × Int ←
    match numbers with
    | [last] => pure (1, 1, last)
    | [first, last] => pure (first, 1, last)
    | [first, step, last] => pure (first, step, last)
    | [] => refuse "seq" "missing operand".toList
    | _ => refuse "seq" ("extra operand ".toList ++ inQuotes (operands[3]?.getD []))
  if step = 0 then
    refuse "seq" ("invalid Zero increment value: ".toList ++ inQuotes (operands[1]?.getD []))
  let count := if 0 < step then (last - first) / step + 1 else (first - last) / (-step) + 1
  let texts := (List.range count.toNat).map fun i : Nat => Bytes.ofInt (first + step * i)
  let width := if padded then (texts.map (·.length)).foldl max 0 else 0
  let texts := texts.map fun s => List.replicate (width - s.length) '0' ++ s
  if !texts.isEmpty then Act.emit (separator.intercalate texts ++ ['\n'])
  return 0

/-! ## Names of files -/

def withoutSlashes (s : Bytes) : Bytes :=
  match (s.reverse.dropWhile (· == '/')).reverse with
  | [] => s.take 1
  | t => t

def basename (args : List Bytes) : Act Nat := do
  let (_, operands) ← read "basename" "" args
  match operands with
  | [] => refuse "basename" "missing operand".toList
  | path :: rest =>
    let path := withoutSlashes path
    let name := (path.reverse.takeWhile (· != '/')).reverse
    let name := if name.isEmpty then path else name
    let ending := rest.headD []
    let name :=
      if ending.length < name.length && name.drop (name.length - ending.length) == ending then
        name.take (name.length - ending.length)
      else name
    Act.emit (name ++ ['\n'])
    return 0

def dirname (args : List Bytes) : Act Nat := do
  let (_, operands) ← read "dirname" "" args
  if operands.isEmpty then refuse "dirname" "missing operand".toList
  for path in operands do
    let path := withoutSlashes path
    let folder := (path.reverse.dropWhile (· != '/')).reverse
    Act.emit ((if folder.isEmpty then ['.'] else withoutSlashes folder) ++ ['\n'])
  return 0

def touch (args : List Bytes) : Act Nat := do
  let mut status := 0
  for name in args do
    if (← Act.entry? name).isNone then
      match ← Act.openFile name .append with
      | .ok _ => pure ()
      | .error f =>
        say "touch" ("cannot touch '".toList ++ name ++ "': ".toList ++ (faultText f).toList)
        status := 1
  return status

def mkdir (args : List Bytes) : Act Nat := do
  let (given, names) ← read "mkdir" "p" args
  let mut status := 0
  for name in names do
    let fault : Option FileFault ←
      match ← Act.place name with
      | .error f => pure (some f)
      | .ok l =>
        let files := (← get).world.files
        match files.lookup? l, files.lookup? l.dropLast with
        | some _, _ => pure none
        | none, none => pure (some .notFound)
        | none, some _ =>
          Act.changeWorld fun w => { w with files := w.files.put l .folder }
          continue
    if (given? 'p' given).isSome && fault.isNone then continue
    say "mkdir" ("cannot create directory ".toList ++ inQuotes name ++ ": ".toList ++
      ((fault.map faultText).getD "File exists").toList)
    status := 1
  return status

def remove (program : String) (folders : Bool) (args : List Bytes) : Act Nat := do
  let (given, names) ← read program "rfR" args
  let has (c : Char) : Bool := (given? c given).isSome
  let deep := has 'r' || has 'R'
  let mut status := 0
  for name in names do
    let fault : Option String ←
      match ← Act.place name with
      | .error f => pure (if has 'f' then none else some (faultText f))
      | .ok l =>
        let files := (← get).world.files
        match files.lookup? l with
        | none => pure (if has 'f' then none else some "No such file or directory")
        | some e =>
          if folders && e ≠ .folder then pure (some "Not a directory")
          else if folders && !(files.children l).isEmpty then pure (some "Directory not empty")
          else if !folders && !deep && e == .folder then pure (some "Is a directory")
          else
            Act.changeWorld fun w => { w with files := w.files.filter fun f => !l.isPrefixOf f.1 }
            pure none
    if let some f := fault then
      let what := if folders then "failed to remove '" else "cannot remove '"
      say program (what.toList ++ name ++ "': ".toList ++ f.toList)
      status := 1
  return status

/-! ## Time -/

/-- How many microseconds a text says, in seconds unless a letter follows. -/
def duration? (s : Bytes) : Option Nat :=
  match Fraction.read s with
  | ⟨.finite false n d, rest, _⟩ =>
    let factor? : Option Nat :=
      match rest with
      | [] | ['s'] => some 1
      | ['m'] => some 60
      | ['h'] => some 3600
      | ['d'] => some 86400
      | _ => none
    if s.head?.map (fun c => c.isDigit || c == '.') == some true then
      factor?.map fun factor => n * 1000000 * factor / d
    else none
  | _ => none

def sleep (args : List Bytes) : Act Nat := do
  let (_, operands) ← read "sleep" "" args
  if operands.isEmpty then refuse "sleep" "missing operand".toList
  let times ← operands.mapM fun s =>
    match duration? s with
    | some t => pure t
    | none => refuse "sleep" ("invalid time interval ".toList ++ inQuotes s)
  Act.pass (times.foldl (· + ·) 0)
  return 0

/-! ## Expressions -/

/-- The value of an expression of integers and texts, given the words in front of it from the last
operator on. -/
def operate (op a b : Bytes) : Act Bytes := do
  let number (s : Bytes) : Act Int := do
    match wholeNumber? (some 10) s with
    | some n => return n
    | none =>
      say "expr" "non-integer argument".toList
      leave 2
  let truth (b : Bool) : Bytes := if b then ['1'] else ['0']
  let compare (numbers : Int → Int → Bool) (texts : Bool) : Bytes :=
    match wholeNumber? (some 10) a, wholeNumber? (some 10) b with
    | some m, some n => truth (numbers m n)
    | _, _ => truth texts
  let quotient (f : Int → Int → Int) : Act Bytes := do
    let m ← number a
    let n ← number b
    if n = 0 then
      say "expr" "division by zero".toList
      leave 2
    return Bytes.ofInt (f m n)
  match String.ofList op with
  | "+" => return Bytes.ofInt ((← number a) + (← number b))
  | "-" => return Bytes.ofInt ((← number a) - (← number b))
  | "*" => return Bytes.ofInt ((← number a) * (← number b))
  | "/" => quotient Int.tdiv
  | "%" => quotient Int.tmod
  | "=" | "==" => return compare (· == ·) (a == b)
  | "!=" => return compare (· != ·) (a != b)
  | "<" => return compare (· < ·) (a.comesBefore b)
  | "<=" => return compare (· ≤ ·) (!b.comesBefore a)
  | ">" => return compare (· > ·) (b.comesBefore a)
  | ">=" => return compare (· ≥ ·) (!a.comesBefore b)
  | "&" => return if isNull a || isNull b then ['0'] else a
  | "|" => return if !isNull a then a else if isNull b then ['0'] else b
  | _ =>
    say "expr" "syntax error".toList
    leave 2
where
  /-- Whether a text counts as false. -/
  isNull (s : Bytes) : Bool := s.isEmpty || s == ['0']

def looseness (op : Bytes) : Nat :=
  match String.ofList op with
  | "*" | "/" | "%" => 1
  | "+" | "-" => 2
  | "=" | "==" | "!=" | "<" | "<=" | ">" | ">=" => 3
  | "&" => 4
  | "|" => 5
  | _ => 0

mutual

/-- The value of an operand at the start of some words, with the operators behind it that bind at
most so loosely, and the words behind those. The last one of all words is `last`. -/
def expression (last : Bytes) : Nat → Nat → List Bytes → Act (Bytes × List Bytes)
  | 0, _, _ => throw .bound
  | fuel + 1, 0, words => do
    let fault {α : Type} (message : String) (word : Bytes) : Act α := do
      say "expr" ("syntax error: ".toList ++ message.toList ++ inQuotes word)
      leave 2
    match words with
    | [] => fault "missing argument after " last
    | word :: rest =>
      if word == ['('] then
        let (value, rest) ← expression last fuel 5 rest
        match rest with
        | [')'] :: rest => return (value, rest)
        | [] => fault "expecting ')' after " last
        | word :: _ => fault "expecting ')' instead of " word
      else if word == [')'] then
        say "expr" "syntax error: unexpected ')'".toList
        leave 2
      else if word == ['+'] then
        match rest with
        | [] => fault "missing argument after " last
        | word :: rest => return (word, rest)
      else if word == "length".toList then
        let (value, rest) ← expression last fuel 0 rest
        return (Bytes.ofNat value.length, rest)
      else if word == "index".toList then
        let (value, rest) ← expression last fuel 0 rest
        let (set, rest) ← expression last fuel 0 rest
        return (Bytes.ofNat ((value.findIdx? set.contains).elim 0 (· + 1)), rest)
      else if word == "substr".toList then
        let (value, rest) ← expression last fuel 0 rest
        let (start, rest) ← expression last fuel 0 rest
        let (count, rest) ← expression last fuel 0 rest
        match wholeNumber? (some 10) start, wholeNumber? (some 10) count with
        | some start, some count =>
          if start ≤ 0 || count ≤ 0 then return ([], rest)
          else return ((value.drop (start.toNat - 1)).take count.toNat, rest)
        | _, _ => return ([], rest)
      else return (word, rest)
  | fuel + 1, bound + 1, words => do
    let (value, rest) ← expression last fuel bound words
    chain last fuel bound value rest

/-- The value of the rest of a chain of operators that bind one step more loosely than `bound`
says. -/
def chain (last : Bytes) : Nat → Nat → Bytes → List Bytes → Act (Bytes × List Bytes)
  | 0, _, _, _ => throw .bound
  | _, _, value, [] => return (value, [])
  | fuel + 1, bound, value, op :: rest => do
    if looseness op = bound + 1 then
      let (b, rest) ← expression last fuel bound rest
      chain last fuel bound (← operate op value b) rest
    else return (value, op :: rest)

end

/-- The value of an expression. The status says whether it counts as true. -/
def expr (args : List Bytes) : Act Nat := do
  if args.isEmpty then
    say "expr" "missing operand\nTry 'expr --help' for more information.".toList
    leave 2
  let (value, rest) ← expression (args.getLastD []) (8 * args.length + 8) 5 args
  match rest with
  | [] =>
    Act.emit (value ++ ['\n'])
    return if operate.isNull value then 1 else 0
  | word :: _ =>
    say "expr" ("syntax error: unexpected argument ".toList ++ inQuotes word)
    return 2

end StepScript.Shell.Program
