/-!
# Trees of files

A **tree** has files and folders below one root. A path is a list of steps, and each step is taken
from a folder: a name leads into it, one dot stays there, two dots lead back to the folder around
it. So a path with two dots leads nowhere if what it turns back from is no folder.

Main statements:

* `locate_put` — putting a file where no folder stands moves no other path;
* `lookup_locate_put` — a path leads to the file that was put where it leads.
-/

set_option autoImplicit false

namespace StepScript

/-- Why a file cannot be reached, read or written. -/
inductive FileFault where
  | notFound
  | isFolder
  | notFolder
  | notText
  | denied
  | nameTooLong
  /-- The name has a character with the code zero. -/
  | zeroInName
deriving DecidableEq

def FileFault.message : FileFault → String
  | .notFound => "No such file or directory (os error 2)"
  | .isFolder => "Is a directory (os error 21)"
  | .notFolder => "Not a directory (os error 20)"
  | .notText => "stream did not contain valid UTF-8"
  | .denied => "Permission denied (os error 13)"
  | .nameTooLong => "File name too long (os error 36)"
  | .zeroInName => "file name contained an unexpected NUL byte"

/-! ## Paths -/

/-- Where a file or a folder stands: the names on the way from the root, which is `[]`. -/
abbrev Location := List (List Char)

/-- A path as it was written. -/
structure FilePath where
  /-- Whether the path starts at the root. -/
  absolute : Bool
  /-- The steps, none of them empty. -/
  steps : List (List Char)
  /-- Whether a slash at its end says that the path leads to a folder. -/
  asFolder : Bool
deriving DecidableEq

namespace FilePath

def pieces : List Char → List (List Char)
  | [] => [[]]
  | c :: s =>
    if c = '/' then [] :: pieces s
    else
      match pieces s with
      | [] => [[c]]
      | p :: rest => (c :: p) :: rest

def ofText (name : List Char) : FilePath where
  absolute := name.head? == some '/'
  steps := (pieces name).filter (· != [])
  asFolder := name.getLast? == some '/'

/-- The step that stays where it is. -/
def here : List Char := ['.']

/-- The step back to the folder around. -/
def back : List Char := ['.', '.']

def fileName (p : FilePath) : List Char :=
  p.steps.getLast?.getD []

/-- The text of a path without the pieces at its ends that stay where they are. -/
def trimmed (name : List Char) : List Char :=
  ['/'].intercalate ((((pieces name).dropWhile idle).reverse.dropWhile idle).reverse)
where
  /-- Whether a piece leads nowhere else. -/
  idle (p : List Char) : Bool := p == [] || p == here

def hasZero (p : FilePath) : Bool :=
  p.steps.any (·.contains '\x00')

/-- The most characters that a name may have, counted as bytes. -/
def nameLimit : Nat := 255

end FilePath

/-! ## Trees -/

inductive Entry (α : Type) where
  | file (content : α)
  | folder
deriving DecidableEq

/-- The entries below the root, each location once. -/
abbrev FileTree (α : Type) := List (Location × Entry α)

namespace FileTree

variable {α : Type}

def lookup? (t : FileTree α) (l : Location) : Option (Entry α) :=
  if l = [] then some .folder else t.lookup l

def put (t : FileTree α) (l : Location) (e : Entry α) : FileTree α :=
  (l, e) :: t.filter fun (m, _) => m != l

def drop (t : FileTree α) (l : Location) : FileTree α :=
  t.filter fun (m, _) => m != l

def step (t : FileTree α) (l : Location) (name : List Char) : Except FileFault Location :=
  match t.lookup? l with
  | none => .error .notFound
  | some (.file _) => .error .notFolder
  | some .folder =>
    if name = FilePath.here then .ok l
    else if name = FilePath.back then .ok l.dropLast
    else if FilePath.nameLimit < (String.ofList name).utf8ByteSize then .error .nameTooLong
    else .ok (l ++ [name])

def locate (t : FileTree α) (l : Location) : List (List Char) → Except FileFault Location
  | [] => .ok l
  | name :: names =>
    match t.step l name with
    | .error fault => .error fault
    | .ok next => locate t next names

def children (t : FileTree α) (l : Location) : List (List Char × Entry α) :=
  t.filterMap fun (m, e) =>
    match m.getLast? with
    | some name => if m = l ++ [name] then some (name, e) else none
    | none => none

/-! ## Laws -/

theorem lookup?_put_self (t : FileTree α) {l : Location} (e : Entry α) (h : l ≠ []) :
    (t.put l e).lookup? l = some e := by
  simp [lookup?, put, h]

theorem lookup_filter_of_ne {l m : Location} (t : FileTree α) (h : m ≠ l) :
    List.lookup m (t.filter fun (r, _) => r != l) = List.lookup m t := by
  induction t with
  | nil => rfl
  | cons x t ih =>
    obtain ⟨r, e⟩ := x
    by_cases hr : r = l
    · subst hr
      have hb : (m == r) = false := by simpa using h
      simpa [List.lookup_cons, hb] using ih
    · cases hb : m == r
      · simpa [List.lookup_cons, hb, hr] using ih
      · simp [List.lookup_cons, hb, hr]

theorem lookup?_put_of_ne (t : FileTree α) {l m : Location} (e : Entry α) (h : m ≠ l) :
    (t.put l e).lookup? m = t.lookup? m := by
  have hb : (m == l) = false := by simpa using h
  unfold lookup? put
  split
  · rfl
  · simpa [List.lookup_cons, hb] using lookup_filter_of_ne t h

/-- Steps are taken from folders only, so a file put where no folder stands changes none of
them. -/
theorem step_put {t : FileTree α} {l m next : Location} {name : List Char} (e : Entry α)
    (hl : t.lookup? l ≠ some .folder) (h : t.step m name = .ok next) :
    (t.put l e).step m name = .ok next := by
  have hm : t.lookup? m = some .folder := by
    unfold step at h
    split at h <;> simp_all
  have hne : m ≠ l := by
    rintro rfl
    exact hl hm
  unfold step at h ⊢
  rwa [lookup?_put_of_ne t e hne]

/-- Putting a file where no folder stands moves no path. -/
theorem locate_put {t : FileTree α} {l m last : Location} {names : List (List Char)} (e : Entry α)
    (hl : t.lookup? l ≠ some .folder) (h : t.locate m names = .ok last) :
    (t.put l e).locate m names = .ok last := by
  induction names generalizing m with
  | nil => exact h
  | cons name names ih =>
    unfold locate at h ⊢
    cases hs : t.step m name with
    | error fault => simp [hs] at h
    | ok next =>
      rw [hs] at h
      rw [step_put e hl hs]
      exact ih h

/-- A path leads to the file that was put where it leads. -/
theorem lookup_locate_put {t : FileTree α} {m last : Location} {names : List (List Char)}
    (e : Entry α) (hl : t.lookup? last ≠ some .folder) (h : t.locate m names = .ok last) :
    (t.put last e).locate m names = .ok last ∧ (t.put last e).lookup? last = some e := by
  refine ⟨locate_put e hl h, lookup?_put_self t e ?_⟩
  rintro rfl
  exact hl rfl

end FileTree

end StepScript
