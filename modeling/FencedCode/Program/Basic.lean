import FencedCode.SystemError
import FencedCode.Text.Utf8

/-! Programs that read an input and write an output, and the hosts that run them. -/
namespace FencedCode

/-- How a program ended. -/
inductive ExitStatus
  | exited (code : Nat)
  | killed (signal : Nat)
  deriving DecidableEq

namespace ExitStatus

def isSuccess (s : ExitStatus) : Bool := s == .exited 0

/-- The names of the signals, from the first on. -/
def signalNames : List String :=
  ["SIGHUP", "SIGINT", "SIGQUIT", "SIGILL", "SIGTRAP", "SIGABRT", "SIGBUS", "SIGFPE", "SIGKILL",
    "SIGUSR1", "SIGSEGV", "SIGUSR2", "SIGPIPE", "SIGALRM", "SIGTERM", "SIGSTKFLT", "SIGCHLD",
    "SIGCONT", "SIGSTOP", "SIGTSTP", "SIGTTIN", "SIGTTOU", "SIGURG", "SIGXCPU", "SIGXFSZ",
    "SIGVTALRM", "SIGPROF", "SIGWINCH", "SIGIO", "SIGPWR", "SIGSYS"]

def message : ExitStatus → String
  | .exited code => s!"exit status: {code}"
  | .killed signal =>
    match signalNames[signal - 1]? with
    | some name => s!"signal: {signal} ({name})"
    | none => s!"signal: {signal}"

end ExitStatus

/-- What a program leaves behind. It may have ended before it took all of its input. -/
structure Completion where
  status : ExitStatus := .exited 0
  out : Bytes := []
  err : Bytes := []
  tookInput : Bool := true
  deriving DecidableEq

/-- A program, as a function of its arguments and its input. -/
abbrev Program := List Text → Bytes → Completion

/-- The directories that every system has. -/
def standardDirectories : List Text :=
  ["", ".", "..", "/bin", "/dev", "/etc", "/home", "/opt", "/proc", "/root", "/sys", "/tmp", "/usr",
    "/usr/bin", "/usr/lib", "/usr/local", "/usr/local/bin", "/var"].map String.toList

/-- The programs that a host can run, by name. -/
structure Host where
  programs : List (Text × Program) := []
  directories : List Text := standardDirectories

namespace Host

/-- Whether a name is that of a directory, perhaps with slashes at its end. -/
def isDirectory (h : Host) (name : Text) : Bool :=
  !name.isEmpty && h.directories.elem (name.reverse.dropWhile (· == '/')).reverse

/-- Runs a program. A directory cannot be run. -/
def launch (h : Host) (name : Text) (arguments : List Text) (input : Bytes) :
    Except SystemError Completion :=
  if (name :: arguments).any (·.elem '\x00') then .error .zeroInArgument
  else match h.programs.lookup name with
    | some program => .ok (program arguments input)
    | none => if h.isDirectory name then .error .permissionDenied else .error .notFound

end Host

end FencedCode
