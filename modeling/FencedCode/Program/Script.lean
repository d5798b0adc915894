import FencedCode.Program.Basic

/-! Programs that do a prepared thing whatever they are asked for. -/
namespace FencedCode

/-- What a program writes and how it ends. It may write its arguments and its input before its own
output. -/
structure Script where
  out : Bytes := []
  err : Bytes := []
  status : ExitStatus := .exited 0
  takesInput : Bool := true
  echoesArguments : Bool := false
  echoesInput : Bool := false
  deriving DecidableEq

/-- The program of a script. One that does not take its input is not given any to echo. -/
def Script.program (s : Script) : Program := fun arguments input =>
  let joined := if s.echoesArguments then Text.utf8 (List.intercalate ['\n'] arguments) else []
  let echoed := if s.echoesInput && s.takesInput then input else []
  { status := s.status
    out := joined ++ echoed ++ s.out
    err := s.err
    tookInput := s.takesInput }

end FencedCode
