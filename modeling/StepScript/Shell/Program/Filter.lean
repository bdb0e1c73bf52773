import StepScript.Shell.Format
import StepScript.Shell.Pattern
import StepScript.Shell.Program.Basic

/-!
# Programs that change texts

Programs that read files or their input and write what they make of it.
-/

set_option autoImplicit false

namespace StepScript.Shell.Program

/-! ## Whole files -/

/-- The place in a file that the stream of a channel leads to, if it leads to one. -/
def filePlace? (channel : Nat) : Act (Option (Location × Nat)) := do
  match ← Act.stream? channel with
  | none => return none
  | some stream =>
    return match (← get).world.streams[stream]? with
      | some (.file l offset _ _ appends) => some (l, if appends then Nat.pow 2 62 else offset)
      | _ => none

/-- Whether a file would be read on and on, since it is written to behind where it is read. -/
def feedsItself (name : Bytes) : Act Bool := do
  let source : Option (Location × Nat) ←
    if name == ['-'] then filePlace? 0
    else
      match ← Act.entry? name with
      | some (l, .file (.data _)) => pure (some (l, 0))
      | _ => pure none
  return match source, ← filePlace? 1 with
    | some (l, start), some (m, stop) => l == m && start < stop
    | _, _ => false

/-- Files one after another. Their lines may get numbers. -/
def cat (args : List Bytes) : Act Nat := do
  let (given, names) ← read "cat" "nu" args
  if (← Act.stream? 1).isNone then
    say "cat" ("standard output: ".toList ++ (← outputFault))
    return 1
  let numbered := (given? 'n' given).isSome
  let mut count := 0
  let mut status := 0
  for name in if names.isEmpty then [['-']] else names do
    if ← feedsItself name then
      say "cat" (name ++ ": input file is output file".toList)
      status := 1
      continue
    match ← content name with
    | .ok bytes =>
      if numbered then
        for line in lines bytes do
          count := count + 1
          Act.emit (rightAligned 6 (Bytes.ofNat count) ++ '\t' :: line)
      else Act.emit bytes
      if !(← Act.flush) then
        say "cat" ("write error: ".toList ++ (← outputFault))
        return 1
    | .error f =>
      say "cat" (plainFault name f)
      if name == ['-'] then say "cat" "closing standard input: Bad file descriptor".toList
      status := 1
  return status

/-- The input, which is written to files besides. -/
def tee (args : List Bytes) : Act Nat := do
  let (given, names) ← read "tee" "ai" args
  match ← content ['-'] with
  | .error _ => return 1
  | .ok bytes =>
    let mode : FileMode := if (given? 'a' given).isSome then .append else .overwrite
    let mut status := 0
    for name in names do
      match ← Act.openFile name mode with
      | .error f =>
        say "tee" (plainFault name f)
        status := 1
      | .ok stream =>
        Act.change fun s => { s with channels := (3, stream) :: s.channels }
        let _ ← Act.write 3 bytes
    Act.emit bytes
    return status

/-! ## Ends of files -/

/-- Which part of a text is meant. -/
inductive Part where
  | first (n : Nat)
  | last (n : Nat)
  | allButFirst (n : Nat)
  | allButLast (n : Nat)

def Part.take {α : Type} (l : List α) : Part → List α
  | .first n => l.take n
  | .last n => l.drop (l.length - n)
  | .allButFirst n => l.drop n
  | .allButLast n => l.take (l.length - n)

/-- The programs that show one end of files. An old way to say how many lines are meant is a dash and
the number. -/
def endOfFiles (program : String) (atStart : Bool) (args : List Bytes) : Act Nat := do
  let args : List Bytes :=
    match args with
    | ('-' :: c :: number) :: rest =>
      if c.isDigit then ("-n".toList ++ c :: number) :: rest else args
    | args => args
  let (given, names) ← read program "n:c:qv" args
  let part (unit : String) (s : Bytes) : Act Part := do
    let number (digits : Bytes) : Act Nat := do
      match natural? digits with
      | some n => return n
      | none =>
        say program ("invalid number of ".toList ++ unit.toList ++ ": ".toList ++ inQuotes s)
        leave 1
    match atStart, s with
    | true, '-' :: digits => return .allButLast (← number digits)
    | true, digits => return .first (← number digits)
    | false, '+' :: digits => return .allButFirst ((← number digits) - 1)
    | false, '-' :: digits => return .last (← number digits)
    | false, digits => return .last (← number digits)
  let bytesPart ← (given? 'c' given).mapM (part "bytes")
  let linesPart ← part "lines" ((given? 'n' given).getD "10".toList)
  forFiles program openFault names fun name bytes => do
    if 1 < names.length then
      Act.emit ("==> ".toList ++ name ++ " <==\n".toList)
    match bytesPart with
    | some p => Act.emit (p.take bytes)
    | none => Act.emit (linesPart.take (lines bytes)).flatten

/-! ## Lines -/

def sortNumber (line : Bytes) : Int :=
  (readNumber (some 10) line).value

def sort (args : List Bytes) : Act Nat := do
  let (given, names) ← read "sort" "nru" args
  let has (c : Char) : Bool := (given? c given).isSome
  let mut all : List Bytes := []
  let mut status := 0
  for name in if names.isEmpty then [['-']] else names do
    match ← content name with
    | .ok bytes => all := all ++ (lines bytes).map withoutEnd
    | .error f =>
      say "sort" ("cannot read: ".toList ++ plainFault name f)
      status := 2
  if status ≠ 0 then return status
  let noLater (a b : Bytes) : Bool :=
    if has 'n' && sortNumber a ≠ sortNumber b then sortNumber a ≤ sortNumber b
    else a.comesBefore b || a == b
  let sorted := all.mergeSort fun a b => if has 'r' then noLater b a else noLater a b
  let same (a b : Bytes) : Bool := if has 'n' then sortNumber a == sortNumber b else a == b
  let kept :=
    if has 'u' then
      (sorted.foldl (fun (out : List Bytes) line =>
        match out with
        | last :: _ => if same last line then out else line :: out
        | [] => [line]) []).reverse
    else sorted
  for line in kept do
    Act.emit (line ++ ['\n'])
  return 0

def uniq (args : List Bytes) : Act Nat := do
  let (given, names) ← read "uniq" "cdu" args
  let has (c : Char) : Bool := (given? c given).isSome
  forFiles "uniq" plainFault (names.take 1) fun _ bytes => do
    let groups := (((lines bytes).map withoutEnd).foldl (fun (out : List (Bytes × Nat)) line =>
      match out with
      | (last, n) :: rest => if last == line then (last, n + 1) :: rest else (line, 1) :: out
      | [] => [(line, 1)]) []).reverse
    for (line, n) in groups do
      if (has 'd' && n < 2) || (has 'u' && 1 < n) then pure ()
      else if has 'c' then Act.emit (rightAligned 7 (Bytes.ofNat n) ++ ' ' :: line ++ ['\n'])
      else Act.emit (line ++ ['\n'])

def rev (args : List Bytes) : Act Nat := do
  let (_, names) ← read "rev" "" args
  forFiles "rev" plainFault names fun _ bytes => do
    for line in lines bytes do
      Act.emit ((withoutEnd line).reverse ++ line.filter (· == '\n'))

/-! ## Counts -/

def countWords (s : Bytes) : Nat :=
  (s.foldl (fun (inWord, n) c =>
    if isSpace c then (false, n) else (true, if inWord then n else n + 1)) (false, 0)).2

def wc (args : List Bytes) : Act Nat := do
  let (given, names) ← read "wc" "lwcm" args
  let has (c : Char) : Bool := given.isEmpty && c != 'm' || (given? c given).isSome
  let counts (s : Bytes) : List Nat :=
    (if has 'l' then [s.count '\n'] else []) ++ (if has 'w' then [countWords s] else []) ++
      (if has 'm' then [s.length] else []) ++ (if has 'c' then [s.length] else [])
  let mut rows : List (Bytes × List Nat) := []
  let mut status := 0
  for name in if names.isEmpty then [['-']] else names do
    match ← content name with
    | .ok bytes => rows := rows ++ [(if names.isEmpty then [] else name, counts bytes)]
    | .error f =>
      say "wc" (plainFault name f)
      status := 1
  let total := rows.foldl (fun sum row => List.zipWith (· + ·) sum row.2)
    ((counts []).map fun _ => 0)
  if 1 < names.length then rows := rows ++ [("total".toList, total)]
  let single := (counts []).length == 1 && rows.length == 1
  let width : Nat :=
    if single then 1
    else if names.isEmpty || names.contains ['-'] then 7
    else (Bytes.ofNat ((rows.flatMap (·.2)).foldl max 0)).length
  for (name, counts) in rows do
    Act.emit ([' '].intercalate (counts.map fun n => rightAligned width (Bytes.ofNat n)))
    Act.emit ((if name.isEmpty then [] else ' ' :: name) ++ ['\n'])
  return status

/-! ## Bytes -/

def byteSet : Nat → Bytes → Bytes
  | 0, _ => []
  | _, [] => []
  | fuel + 1, s =>
    let one : Char × Bytes :=
      match s with
      | '\\' :: t => escapedByte t
      | c :: t => (c, t)
      | [] => ('\x00', [])
    match Pattern.namedClass? (s.drop 1), s with
    | some (holds, rest), '[' :: _ =>
      ((List.range 256).map Char.ofNat).filter holds ++ byteSet fuel rest
    | _, _ =>
      match one.2 with
      | '-' :: d :: rest =>
        let low := one.1.toNat
        (List.range' low (d.toNat + 1 - low)).map Char.ofNat ++ byteSet fuel rest
      | rest => one.1 :: byteSet fuel rest

/-- Bytes are changed into others, dropped or written only once where they are repeated. -/
def tr (args : List Bytes) : Act Nat := do
  let (given, sets) ← read "tr" "cCds" args
  let has (c : Char) : Bool := (given? c given).isSome
  let sets := sets.map fun s => byteSet (s.length + 1) s
  let complement := has 'c' || has 'C'
  match sets with
  | [] => refuse "tr" "missing operand".toList
  | first :: others =>
    let isIn (c : Char) : Bool := first.contains c != complement
    let second := others.headD []
    if others.isEmpty && !has 'd' && !has 's' then
      refuse "tr" ("missing operand after ".toList ++ inQuotes (args.getLast?.getD []) ++
        "\nTwo strings must be given when translating.".toList)
    let change (c : Char) : Char :=
      if has 'd' || others.isEmpty || !isIn c then c
      else if complement then second.getLast?.getD c
      else
        -- The last place of a byte in the set counts.
        let place := first.length - 1 - first.reverse.idxOf c
        second[place]?.getD (second.getLast?.getD c)
    let squeezed : Char → Bool :=
      if !has 's' then fun _ => false
      else if others.isEmpty then isIn
      else fun c => second.contains c
    forFiles "tr" plainFault [] fun _ bytes => do
      let kept := (if has 'd' then bytes.filter (!isIn ·) else bytes).map change
      let out := kept.foldl (fun (out : Bytes) c =>
        if squeezed c && out.head? == some c then out else c :: out) []
      Act.emit out.reverse

/-! ## Columns -/

def inColumns (list : Bytes) (n : Nat) : Bool :=
  (Act.folders (list.map fun c => if c = ',' then ':' else c)).any fun range =>
    let low := range.takeWhile (· != '-')
    match range.drop low.length with
    | [] => natural? low == some n
    | _ :: high =>
      decide ((natural? low).getD 1 ≤ n) && ((natural? high).map (decide <| n ≤ ·)).getD true

def splitAt (separator : Char) : Bytes → List Bytes
  | [] => [[]]
  | c :: s =>
    if c = separator then [] :: splitAt separator s
    else
      match splitAt separator s with
      | [] => [[c]]
      | p :: rest => (c :: p) :: rest

def cut (args : List Bytes) : Act Nat := do
  let (given, names) ← read "cut" "d:f:c:b:s" args
  let separator := ((given? 'd' given).bind (·.head?)).getD '\t'
  let choose {α : Type} (list : Bytes) (l : List α) : List α :=
    (l.zipIdx.filter fun (_, i) => inColumns list (i + 1)).map (·.1)
  let line ←
    match given? 'f' given, given? 'c' given <|> given? 'b' given with
    | some list, _ =>
      pure fun (s : Bytes) =>
        if !s.contains separator then if (given? 's' given).isSome then none else some s
        else some ([separator].intercalate (choose list (splitAt separator s)))
    | none, some list => pure fun (s : Bytes) => some (choose list s)
    | none, none => refuse "cut" "you must specify a list of bytes, characters, or fields".toList
  forFiles "cut" plainFault names fun _ bytes => do
    for s in lines bytes do
      if let some s := line (withoutEnd s) then Act.emit (s ++ ['\n'])

end StepScript.Shell.Program
