/-! How programs end, by themselves or by a signal, and why a system does not do what it is asked to. -/
namespace ConstraintDesk.Machine

inductive Ending where
  | exited (status : Nat)
  | signalled (number : Nat) (dumped : Bool)
  deriving DecidableEq, Repr

namespace Ending

def signalNames : List String :=
  ["SIGHUP", "SIGINT", "SIGQUIT", "SIGILL", "SIGTRAP", "SIGABRT", "SIGBUS", "SIGFPE", "SIGKILL",
   "SIGUSR1", "SIGSEGV", "SIGUSR2", "SIGPIPE", "SIGALRM", "SIGTERM", "SIGSTKFLT", "SIGCHLD",
   "SIGCONT", "SIGSTOP", "SIGTSTP", "SIGTTIN", "SIGTTOU", "SIGURG", "SIGXCPU", "SIGXFSZ",
   "SIGVTALRM", "SIGPROF", "SIGWINCH", "SIGIO", "SIGPWR", "SIGSYS"]

def signalName (number : Nat) : String :=
  match ("" :: signalNames)[number]? with
  | some "" | none => ""
  | some name => s!" ({name})"

def text : Ending → String
  | .exited status => s!"exit status: {status}"
  | .signalled number dumped =>
    s!"signal: {number}{signalName number}" ++ if dumped then " (core dumped)" else ""

end Ending

inductive Refusal where
  | noEntry
  | notPermitted
  | taken
  | notFolder
  | isFolder
  | notEmpty
  | nameTooLong
  | badDescriptor
  | invalid
  | nullInProgram
  | nullInPath
  deriving DecidableEq, Repr

namespace Refusal

def text : Refusal → String
  | .noEntry => "No such file or directory"
  | .notPermitted => "Permission denied"
  | .taken => "File exists"
  | .notFolder => "Not a directory"
  | .isFolder => "Is a directory"
  | .notEmpty => "Directory not empty"
  | .nameTooLong => "File name too long"
  | .badDescriptor => "Bad file descriptor"
  | .invalid => "Invalid argument"
  | .nullInProgram => "nul byte found in provided data"
  | .nullInPath => "file name contained an unexpected NUL byte"

def number? : Refusal → Option Nat
  | .noEntry => some 2
  | .notPermitted => some 13
  | .taken => some 17
  | .notFolder => some 20
  | .isFolder => some 21
  | .notEmpty => some 39
  | .nameTooLong => some 36
  | .badDescriptor => some 9
  | .invalid => some 22
  | .nullInProgram | .nullInPath => none

def message (r : Refusal) : String :=
  match r.number? with
  | some n => s!"{r.text} (os error {n})"
  | none => r.text

end Refusal
end ConstraintDesk.Machine
