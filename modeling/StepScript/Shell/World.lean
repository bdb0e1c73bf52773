import StepScript.FileTree
import StepScript.Shell.Bytes

/-!
# What shells share

A shell starts other shells and programs, and all of them see the same files and write to the same
**streams**. A process names the streams that it uses by **channels**, which are numbers of its own.

Processes run one after another, but each of them has a clock, and what is written is put in order
by the time at which it was written.
-/

set_option autoImplicit false

namespace StepScript.Shell

/-! ## Files -/

/-- A file that is no plain one. -/
inductive Device where
  /-- Nothing is read from it, and what is written to it is lost. -/
  | null
  /-- Zeros are read from it. -/
  | zero
  /-- Nothing can be written to it. -/
  | full
  /-- A terminal that is not there. -/
  | terminal
deriving DecidableEq

inductive FileKind where
  | data (bytes : Bytes)
  | device (d : Device)
  /-- A program, by its name. -/
  | program (name : String)
  /-- A name for a channel of the process that uses it. -/
  | channel (n : Nat)
deriving DecidableEq

abbrev Files := FileTree FileKind

/-! ## Streams -/

inductive Stream where
  /-- What is written is kept, with the times at which it was written, the last first. If there is
  a bound, nothing can be written beyond it. -/
  | collector (bound : Option Nat) (size : Nat) (chunks : List (Nat × Bytes))
  /-- What is read, and the time from which on all of it is there. -/
  | queue (rest : Bytes) (ready : Nat)
  /-- A file, and the place in it that is read or written next. -/
  | file (location : Location) (offset : Nat) (reads writes appends : Bool)
  | device (d : Device) (reads writes : Bool)
deriving DecidableEq

instance : Inhabited Stream := ⟨.queue [] 0⟩

structure World where
  files : Files
  streams : Array Stream
  /-- The number of the next process. -/
  nextProcess : Nat
  /-- Signals that were sent and did not arrive, each with the process that it is for. -/
  signals : List (Nat × Nat)

namespace World

def openStream (w : World) (s : Stream) : Nat × World :=
  (w.streams.size, { w with streams := w.streams.push s })

def collected (chunks : List (Nat × Bytes)) : Bytes :=
  (chunks.reverse.mergeSort fun a b => a.1 ≤ b.1).flatMap (·.2)

def written (w : World) (stream : Nat) : Bytes :=
  match w.streams[stream]? with
  | some (.collector _ _ chunks) => collected chunks
  | _ => []

inductive WriteResult where
  | done (w : World)
  | failed
  /-- Nobody will read what is written. -/
  | broken

def overwrite (old : Bytes) (offset : Nat) (new : Bytes) : Bytes :=
  old.take offset ++ List.replicate (offset - old.length) '\x00' ++ new ++
    old.drop (offset + new.length)

def write (w : World) (stream time : Nat) (bytes : Bytes) : WriteResult :=
  match w.streams[stream]? with
  | some (.collector bound size chunks) =>
    if (bound.map fun b => decide (b < size)).getD false then .broken
    else
      -- The old stream is taken out first, so that the new one can take its place in memory.
      let streams := w.streams.set! stream default
      let size := size + bytes.length
      .done { w with
        streams := streams.set! stream (.collector bound size ((time, bytes) :: chunks)) }
  | some (.file location offset reads true appends) =>
    match w.files.lookup? location with
    | some (.file (.data old)) =>
      let offset := if appends then old.length else offset
      .done { w with
        files := w.files.put location (.file (.data (overwrite old offset bytes)))
        streams := w.streams.set! stream
          (.file location (offset + bytes.length) reads true appends) }
    | _ => .done w
  | some (.device .full _ true) => .failed
  | some (.device _ _ true) => .done w
  | _ => .failed

/-- Up to so many bytes from a stream, and the time at which they are there. At the end there are
none; a stream that cannot be read gives nothing. -/
def read? (w : World) (stream count : Nat) : Option (Bytes × Nat × World) :=
  match w.streams[stream]? with
  | some (.queue rest ready) =>
    some (rest.take count, ready,
      { w with streams := w.streams.set! stream (.queue (rest.drop count) ready) })
  | some (.file location offset true writes appends) =>
    match w.files.lookup? location with
    | some (.file (.data bytes)) =>
      let part := (bytes.drop offset).take count
      some (part, 0,
        { w with
          streams := w.streams.set! stream
            (.file location (offset + part.length) true writes appends) })
    | _ => some ([], 0, w)
  | some (.device .zero true _) | some (.device .full true _) =>
    some (List.replicate (min count 65536) '\x00', 0, w)
  | some (.device _ true _) => some ([], 0, w)
  | _ => none

end World

/-! ## The files that are there from the start -/

def programNames : List String :=
  ["[", "basename", "cat", "cut", "dirname", "echo", "env", "expr", "false", "head", "mkdir",
    "printenv", "printf", "pwd", "rev", "rm", "rmdir", "seq", "sh", "sleep", "sort", "tail", "tee",
    "test", "touch", "tr", "true", "uniq", "wc", "yes"]

def firstFiles : Files :=
  folders.map (fun p => ((FilePath.ofText p.toList).steps, .folder)) ++
    (["/bin/", "/usr/bin/"].flatMap fun folder =>
      programNames.map fun name =>
        ((FilePath.ofText (folder ++ name).toList).steps, .file (.program name))) ++
    devices.map fun (p, kind) => ((FilePath.ofText p.toList).steps, .file kind)
where
  /-- The folders. -/
  folders : List String :=
    ["/bin", "/boot", "/dev", "/dev/fd", "/dev/shm", "/dev/pts", "/etc", "/home", "/lib", "/lib64",
      "/media", "/mnt", "/opt", "/proc", "/root", "/run", "/sbin", "/srv", "/sys", "/tmp", "/usr",
      "/usr/bin", "/usr/lib", "/usr/local", "/usr/local/bin", "/usr/sbin", "/usr/share", "/var",
      "/var/lib", "/var/log", "/var/tmp"]
  /-- The files that are no programs. -/
  devices : List (String × FileKind) :=
    [("/dev/null", .device .null), ("/dev/zero", .device .zero), ("/dev/full", .device .full),
      ("/dev/tty", .device .terminal), ("/dev/stdin", .channel 0), ("/dev/stdout", .channel 1),
      ("/dev/stderr", .channel 2), ("/dev/random", .device .zero), ("/dev/urandom", .device .zero),
      ("/etc/passwd", .data "root:x:0:0:root:/root:/bin/sh\n".toList),
      ("/etc/hosts", .data "127.0.0.1\tlocalhost\n".toList)] ++
    (List.range 10).map fun n => ("/dev/fd/" ++ toString n, .channel n)

end StepScript.Shell
