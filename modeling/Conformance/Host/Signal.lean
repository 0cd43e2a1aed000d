set_option autoImplicit false

/-! # Signals

The signals that a process can be sent: their numbers, their names, what they are called when a
process has died of one, and what one does to a process that has made no arrangements for it.
-/

namespace Conformance

/-- A signal, by its number. -/
abbrev Signal := Nat

namespace Signal

/-- The signals with a name: number, name and description. -/
def table : List (Signal × String × String) :=
  [(1, "HUP", "Hangup"), (2, "INT", "Interrupt"), (3, "QUIT", "Quit"),
   (4, "ILL", "Illegal instruction"), (5, "TRAP", "Trace/breakpoint trap"), (6, "ABRT", "Aborted"),
   (7, "BUS", "Bus error"), (8, "FPE", "Floating point exception"), (9, "KILL", "Killed"),
   (10, "USR1", "User defined signal 1"), (11, "SEGV", "Segmentation fault"),
   (12, "USR2", "User defined signal 2"), (13, "PIPE", "Broken pipe"), (14, "ALRM", "Alarm clock"),
   (15, "TERM", "Terminated"), (16, "STKFLT", "Stack fault"), (17, "CHLD", "Child exited"),
   (18, "CONT", "Continued"), (19, "STOP", "Stopped (signal)"), (20, "TSTP", "Stopped"),
   (21, "TTIN", "Stopped (tty input)"), (22, "TTOU", "Stopped (tty output)"),
   (23, "URG", "Urgent I/O condition"), (24, "XCPU", "CPU time limit exceeded"),
   (25, "XFSZ", "File size limit exceeded"), (26, "VTALRM", "Virtual timer expired"),
   (27, "PROF", "Profiling timer expired"), (28, "WINCH", "Window changed"),
   (29, "IO", "I/O possible"), (30, "PWR", "Power failure"), (31, "SYS", "Bad system call")]

/-- The largest number of a signal. -/
def last : Signal := 64

def interrupt : Signal := 2
def quit : Signal := 3
/-- Ends a process whatever it has arranged. -/
def kill : Signal := 9
def brokenPipe : Signal := 13
def resume : Signal := 18
/-- Stops a process whatever it has arranged. -/
def stop : Signal := 19

/-- The first of the signals that have no meaning of their own. -/
def firstOther : Signal := 34

/-- The name of a signal; zero is the end of a shell. The signals without a meaning are named after
the first and the last one. -/
def name (s : Signal) : String :=
  match table.find? (·.1 = s) with
  | some (_, name, _) => name
  | none =>
    if s = 0 then "EXIT"
    else if s < firstOther then toString s
    else if s = firstOther then "RTMIN"
    else if s < firstOther + 16 then "RTMIN+" ++ toString (s - firstOther)
    else if s < last then "RTMAX-" ++ toString (last - s)
    else "RTMAX"

def named? (text : String) : Option Signal :=
  ((List.range last).map (· + 1)).find? fun s => name s = text

/-- The signal that a name, which may begin with `SIG`, or a number stands for. -/
def find? (text : String) : Option Signal :=
  let word := text.toList
  if word ≠ [] ∧ word.all Char.isDigit then
    let n := word.foldl (fun n c => 10 * n + (c.toNat - 48)) 0
    if n ≤ last then some n else none
  else
    let upper := text.toUpper
    named? (if upper.startsWith "SIG" then (upper.drop 3).toString else upper)

def description (s : Signal) : String :=
  match table.find? (·.1 = s) with
  | some (_, _, text) => text
  | none =>
    if firstOther ≤ s ∧ s ≤ last then "Real-time signal " ++ toString (s - firstOther)
    else "Unknown signal " ++ toString s

/-- What a signal does to a process that has made no arrangements for it. -/
inductive Effect where
  | none
  | goOn
  | halt
  | die
  deriving DecidableEq, Repr

def effect (s : Signal) : Effect :=
  if s = resume then .goOn
  else if s = stop ∨ s = 20 ∨ s = 21 ∨ s = 22 then .halt
  else if s = 0 ∨ s = 17 ∨ s = 23 ∨ s = 28 then .none
  else .die

end Signal

end Conformance
