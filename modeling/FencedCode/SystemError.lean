import FencedCode.Text.Basic

/-! The reasons for which a system refuses what a program asks of it. -/
namespace FencedCode

inductive SystemError
  | notFound
  | permissionDenied
  | notDirectory
  | isDirectory
  | brokenPipe
  | nameTooLong
  | invalidText
  | zeroInArgument
  | zeroInPath
  deriving DecidableEq

namespace SystemError

/-- The error number, if the system gives one. -/
def code? : SystemError → Option Nat
  | .notFound => some 2
  | .permissionDenied => some 13
  | .notDirectory => some 20
  | .isDirectory => some 21
  | .brokenPipe => some 32
  | .nameTooLong => some 36
  | .invalidText => none
  | .zeroInArgument => none
  | .zeroInPath => none

def reason : SystemError → String
  | .notFound => "No such file or directory"
  | .permissionDenied => "Permission denied"
  | .notDirectory => "Not a directory"
  | .isDirectory => "Is a directory"
  | .brokenPipe => "Broken pipe"
  | .nameTooLong => "File name too long"
  | .invalidText => "stream did not contain valid UTF-8"
  | .zeroInArgument => "nul byte found in provided data"
  | .zeroInPath => "file name contained an unexpected NUL byte"

def message (e : SystemError) : String :=
  match e.code? with
  | some n => s!"{e.reason} (os error {n})"
  | none => e.reason

end SystemError

end FencedCode
