import StepScript.Shell.File
import StepScript.Shell.Pattern

/-!
# Names of files that match a pattern

A pattern with slashes stands for the paths of files. What stands between two slashes is matched
with the names in one folder. A name that starts with a dot is matched only if the pattern says the
dot.
-/

set_option autoImplicit false

namespace StepScript.Shell

namespace Glob

/-- The rest of a class up to its closing bracket, which must stand in front of the next slash. -/
def closes : Nat → Bytes → Bool
  | 0, _ => false
  | fuel + 1, s =>
    let s : Bytes :=
      match s with
      | '\\' :: s => s
      | s => s
    match s with
    | [] | '/' :: _ => false
    | _ :: ']' :: _ => true
    | _ :: s => closes fuel s

/-- Whether a part of a pattern between slashes may match more than one name. -/
def hasChoice : Nat → Bytes → Bool
  | 0, _ => false
  | fuel + 1, s =>
    match s with
    | [] => false
    | '*' :: _ | '?' :: _ => true
    | '[' :: s =>
      let members : Bytes :=
        match s with
        | '!' :: t => t
        | t => t
      closes (members.length + 1) members || hasChoice fuel s
    | '\\' :: _ :: s => hasChoice fuel s
    | _ :: s => hasChoice fuel s

def unescaped : Bytes → Bytes
  | [] => []
  | '\\' :: c :: s => c :: unescaped s
  | c :: s => c :: unescaped s

/-- The parts of a pattern between slashes. A backslash in front of a slash is dropped. -/
def parts : Bytes → List Bytes
  | [] => [[]]
  | '\\' :: '/' :: s => [] :: parts s
  | '\\' :: c :: s =>
    match parts s with
    | [] => [['\\', c]]
    | p :: rest => ('\\' :: c :: p) :: rest
  | c :: s =>
    if c = '/' then [] :: parts s
    else
      match parts s with
      | [] => [[c]]
      | p :: rest => (c :: p) :: rest

def namesIn (folder : Bytes) : Act (List Bytes) := do
  match ← Act.entry? (if folder.isEmpty then FilePath.here else folder) with
  | some (l, .folder) =>
    return FilePath.here :: FilePath.back :: ((← get).world.files.children l).map (·.1)
  | _ => return []

def expandFrom (path : Bytes) : List Bytes → Act (List Bytes)
  | [] => return []
  | part :: rest => do
    if !hasChoice (part.length + 1) part then
      let path := path ++ unescaped part
      match rest with
      | [] => return if (← Act.entry? path).isSome then [path] else []
      | rest => expandFrom (path ++ ['/']) rest
    else
      let saysDot := part.head? == some '.' || part.take 2 == ['\\', '.']
      let names := (← namesIn path).filter fun name =>
        (saysDot || name.head? != some '.') && matchesPattern part name
      match rest with
      | [] => return names.map (path ++ ·)
      | rest =>
        let mut found : List Bytes := []
        for name in names do
          found := found ++ (← expandFrom (path ++ name ++ ['/']) rest)
        return found

end Glob

def Act.glob (pattern : Bytes) : Act (List Bytes) := do
  let parts := Glob.parts pattern
  if !parts.any fun p => Glob.hasChoice (p.length + 1) p then return []
  return (← Glob.expandFrom [] parts).mergeSort fun a b => a.comesBefore b || a == b

end StepScript.Shell
