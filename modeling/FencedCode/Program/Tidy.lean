import FencedCode.Format.Tidy
import FencedCode.Program.Basic
import FencedCode.Text.Numeral

/-! The built-in formatter as a program of its own. -/
namespace FencedCode.Tidy

/-- The options that arguments ask for; those it does not know are ignored. -/
def optionsOf (options : FormatOptions) : List Text → FormatOptions
  | [] => options
  | argument :: rest =>
    if argument = "--skip-string-normalization".toList then
      optionsOf { options with stringNormalization := false } rest
    else if argument = "--line-length".toList then
      match rest with
      | [] => options
      | n :: rest =>
        match Text.digits? 10 n with
        | some lineLength => optionsOf { options with lineLength } rest
        | none => optionsOf options (n :: rest)
    else optionsOf options rest

/-- Formats its input. What it cannot parse it reports with the place. -/
def program : Program := fun arguments input =>
  match format (Utf8.decodeLossy input) (optionsOf {} arguments) with
  | .ok t => { out := Text.utf8 t }
  | .error (.unparsable line column reason) =>
    { status := .exited 123
      err := Text.utf8
        s!"error: cannot format -: Cannot parse: {line}:{column}: {reason}\n".toList }
  | .error (.failed reason) =>
    { status := .exited 123, err := Text.utf8 s!"error: {reason}\n".toList }

end FencedCode.Tidy
