import StepScript.Shell.Bytes

/-!
# Signals

The signals that a process may get, by number. Number zero stands for the end of a shell, so that
an action can be set for it like for a signal.
-/

set_option autoImplicit false

namespace StepScript.Shell

namespace Signal

/-- The names of the signals from number zero on, where a signal without a name is empty. -/
def names : List String :=
  ["EXIT", "HUP", "INT", "QUIT", "ILL", "TRAP", "ABRT", "BUS", "FPE", "KILL", "USR1", "SEGV",
    "USR2", "PIPE", "ALRM", "TERM", "16", "CHLD", "CONT", "STOP", "TSTP", "TTIN", "TTOU", "URG",
    "XCPU", "XFSZ", "VTALRM", "PROF", "WINCH", "IO", "PWR", "SYS", "32", "33", "RTMIN", "RTMIN+1",
    "RTMIN+2", "RTMIN+3", "RTMIN+4", "RTMIN+5", "RTMIN+6", "RTMIN+7", "RTMIN+8", "RTMIN+9",
    "RTMIN+10", "RTMIN+11", "RTMIN+12", "RTMIN+13", "RTMIN+14", "RTMIN+15", "RTMAX-14", "RTMAX-13",
    "RTMAX-12", "RTMAX-11", "RTMAX-10", "RTMAX-9", "RTMAX-8", "RTMAX-7", "RTMAX-6", "RTMAX-5",
    "RTMAX-4", "RTMAX-3", "RTMAX-2", "RTMAX-1", "RTMAX"]

def count : Nat := names.length

def name (n : Nat) : Bytes :=
  (names[n]?.getD "").toList

/-- What a signal did to a process, in the order of numbers. -/
def descriptions : List String :=
  ["", "Hangup", "Interrupt", "Quit", "Illegal instruction", "Trace/breakpoint trap", "Aborted",
    "Bus error", "Floating point exception", "Killed", "User defined signal 1",
    "Segmentation fault", "User defined signal 2", "Broken pipe", "Alarm clock", "Terminated",
    "Stack fault", "Child exited", "Continued", "Stopped (signal)", "Stopped",
    "Stopped (tty input)", "Stopped (tty output)", "Urgent I/O condition",
    "CPU time limit exceeded", "File size limit exceeded", "Virtual timer expired",
    "Profiling timer expired", "Window changed", "I/O possible", "Power failure",
    "Bad system call"]

def description (n : Nat) : String :=
  descriptions[n]?.getD ("Real-time signal " ++ toString (n - 34))

def interrupt : Nat := 2

def kill : Nat := 9

/-- The signal for writing where nobody reads. -/
def pipe : Nat := 13

def terminate : Nat := 15

def isHarmless (n : Nat) : Bool :=
  n ∈ [17, 18, 19, 20, 21, 22, 23, 28]

/-- The signal that a number or a name stands for. Names are read without regard to case. -/
def ofText? (s : Bytes) : Option Nat :=
  if !s.isEmpty && s.all Char.isDigit then
    let n := (digitsIn 10 0 s).1
    if n < count then some n else none
  else names.findIdx? fun name => name.toList.map Char.toUpper == s.map Char.toUpper

end Signal

end StepScript.Shell
