import FencedCode.Format.Options
import FencedCode.Text.Quoted

/-! Formatters for whole sources, and some that need no program. -/
namespace FencedCode

/-- A formatter for whole sources. Its answers may depend on a state that its calls change; its
remarks on a call go to the log. -/
structure Formatter (σ : Type) where
  format : Text → FormatOptions → σ → Except FormatError Text × σ
  remarks : Text → FormatOptions → σ → List String := fun _ _ _ => []

namespace Formatter

/-- A formatter without a state. -/
def pure (f : Text → FormatOptions → Except FormatError Text) : Formatter Unit where
  format source options s := (f source options, s)

/-- Finds every source well formatted. -/
def identity : Formatter Unit := pure fun source _ => .ok source

/-- Gives prepared answers in turn, and then every source back. -/
def prepared : Formatter (List (Except FormatError Text)) where
  format source _ answers :=
    match answers with
    | [] => (.ok source, [])
    | a :: rest => (a, rest)

/-- A formatter that nobody may call: it fails, and remembers the first source it was given. -/
def forbidden : Formatter (Option Text) where
  format source _ first :=
    (.error (.failed "formatter unexpectedly called"), first.or (some source))

/-- Keeps the sources of all calls beside the state. -/
def recorded {σ : Type} (f : Formatter σ) : Formatter (σ × List Text) where
  format source options s :=
    let (result, state) := f.format source options s.1
    (result, (state, s.2 ++ [source]))
  remarks source options s := f.remarks source options s.1

/-- What is said of a call that should not have been made. -/
def unexpectedCall (source : Text) : String :=
  s!"formatter unexpectedly called with {source.quoted}"

end Formatter

end FencedCode
