import StepScript.Shell.Evaluate

/-!
# Starting a program from outside

A program that is started from outside reads nothing and writes to whoever started it. What it says
about errors is not kept. It runs until all that it has started has ended.
-/

set_option autoImplicit false

namespace StepScript.Shell

structure Outcome where
  written : List UInt8
  ending : Ending
deriving DecidableEq

namespace Launch

def folder : Location := ["tmp".toList]

def environment : List (Bytes × Bytes) :=
  [("HOME".toList, "/root".toList), ("PATH".toList, defaultPath),
    ("PWD".toList, locationText folder)]

def depth : Nat := 20000

def streams : Array Stream :=
  #[.device .null true false, .collector none 0 [], .device .null false true]

def machine (name : Bytes) : Machine where
  shell := State.fresh 2 [1] name environment [(0, 0), (1, 1), (2, 2)] folder 18 0
  world := ⟨firstFiles, streams, 3, []⟩

/-- The file at a path, if it is a program. -/
def programAt (path : Bytes) : Except FileFault String :=
  let p := FilePath.ofText path
  match firstFiles.locate (if p.absolute then [] else folder) p.steps with
  | .error fault => .error fault
  | .ok l =>
    match firstFiles.lookup? l with
    | none => .error .notFound
    | some (.file (.program name)) => if p.asFolder then .error .notFolder else .ok name
    | some (.file _) => .error (if p.asFolder then .notFolder else .denied)
    | some .folder => .error .denied

/-- The program that a name stands for. A name without a slash is looked for in some folders, and
what is found there and is no program counts only if there is no program in the others. -/
def program (name : Bytes) : Except FileFault String :=
  if name.isEmpty then .error .notFound
  else if name.contains '/' then programAt name
  else
    let answers := (Act.folders defaultPath).map fun folder => programAt (folder ++ '/' :: name)
    match answers.findSome? (·.toOption) with
    | some name => .ok name
    | none =>
      let isDenied : Except FileFault String → Bool := fun
        | .error .denied => true
        | _ => false
      .error (if answers.any isDenied then .denied else .notFound)

end Launch

/-- What a program leaves behind that is started with arguments, or why it does not start. -/
def launch (name : List Char) (args : List (List Char)) : Except FileFault Outcome :=
  let name := Bytes.ofText name
  let args := args.map Bytes.ofText
  match Launch.program name with
  | .error fault => .error fault
  | .ok program =>
    match Act.inPlace (evaluate Launch.depth) (2 * args.length + 4) program name args
      Launch.environment (Launch.machine name) with
    | .ok ending m => .ok ⟨Bytes.toList (m.world.written 1), ending⟩
    | .error _ m => .ok ⟨Bytes.toList (m.world.written 1), .exited 2⟩

end StepScript.Shell
