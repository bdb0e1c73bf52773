import StepScript.FileTree
import StepScript.Text.Utf8

/-!
# A disk

A small tree of files and folders. A file that is no UTF-8 text is kept as such, since nothing ever
reads it as anything else.

Main statements:

* `writeBytes_encode` — the bytes of a text are written as it;
* `read_write` — what was written is read back.
-/

set_option autoImplicit false

namespace StepScript

inductive FileContent where
  | text (s : List Char)
  /-- Bytes that are no UTF-8 text. -/
  | binary
deriving DecidableEq

/-- The files and folders below the root of a disk. -/
abbrev Disk := FileTree FileContent

namespace Disk

/-- Where a path leads. -/
def place (d : Disk) (p : FilePath) : Except FileFault Location :=
  if p.hasZero then .error .zeroInName else d.locate [] p.steps

def read (d : Disk) (p : FilePath) : Except FileFault (List Char) :=
  match d.place p with
  | .error fault => .error fault
  | .ok l =>
    match d.lookup? l with
    | none => .error .notFound
    | some .folder => .error .isFolder
    | some (.file content) =>
      if p.asFolder then .error .notFolder
      else
        match content with
        | .binary => .error .notText
        | .text s => .ok s

/-- A disk with a file at a path. A path that ends in a slash can be written to no file. -/
def writeContent (d : Disk) (p : FilePath) (content : FileContent) : Except FileFault Disk :=
  match d.place p with
  | .error fault => .error fault
  | .ok l =>
    if p.asFolder ∨ d.lookup? l = some .folder then .error .isFolder
    else .ok (d.put l (.file content))

def write (d : Disk) (p : FilePath) (s : List Char) : Except FileFault Disk :=
  d.writeContent p (.text s)

def writeBytes (d : Disk) (p : FilePath) (bytes : List UInt8) : Except FileFault Disk :=
  d.writeContent p (((Text.Utf8.decode? bytes).map FileContent.text).getD .binary)

/-- A disk with a new folder at a path, where nothing stood. The folder around it must be there. -/
def makeFolder? (d : Disk) (p : FilePath) : Option Disk :=
  match d.place p with
  | .error _ => none
  | .ok l => if d.lookup? l = none then some (d.put l .folder) else none

def remove? (d : Disk) (p : FilePath) : Option Disk :=
  match d.place p with
  | .error _ => none
  | .ok l =>
    match d.lookup? l with
    | none | some .folder => none
    | some (.file _) => if p.asFolder then none else some (d.drop l)

/-! ## Laws -/

/-- A path leads to the file that is put where it leads. -/
theorem place_put {d : Disk} {p : FilePath} {l : Location} (content : FileContent)
    (hl : d.lookup? l ≠ some .folder) (h : d.place p = .ok l) :
    Disk.place (d.put l (.file content)) p = .ok l ∧
      FileTree.lookup? (d.put l (.file content)) l = some (.file content) := by
  unfold place at h ⊢
  split at h
  · simp at h
  · next hz =>
    rw [if_neg hz]
    exact FileTree.lookup_locate_put _ hl h

theorem writeBytes_encode (d : Disk) (p : FilePath) (s : List Char) :
    d.writeBytes p (Text.Utf8.encode s) = d.write p s := by
  rw [writeBytes, Text.Utf8.decode?_encode]
  rfl

theorem read_write {d d' : Disk} {p : FilePath} {s : List Char} (h : d.write p s = .ok d') :
    d'.read p = .ok s := by
  unfold write writeContent at h
  split at h
  · simp at h
  · next l hp =>
    split at h
    · simp at h
    · next hf =>
      obtain ⟨hslash, hfolder⟩ := not_or.1 hf
      obtain rfl := (Except.ok.inj h).symm
      obtain ⟨hplace, hfound⟩ := place_put (.text s) hfolder hp
      unfold read
      rw [hplace]
      simp [hfound, hslash]

end Disk

end StepScript
