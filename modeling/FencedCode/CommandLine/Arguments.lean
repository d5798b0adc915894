import FencedCode.Settings.Table

/-! The arguments of the command line. -/
namespace FencedCode.CommandLine

/-- What a call asks for. -/
structure Invocation where
  files : List Path := []
  lineLength : Option Nat := none
  targets : List Target := []
  skipStringNormalization : Bool := false
  skipErrors : Bool := false
  checkOnly : Bool := false
  settingsFile : Option Path := none
  formatter : Option Text := none
  verbose : Bool := false
  deriving DecidableEq

inductive UsageError
  | unknownOption (option : Text)
  | missingValue (option : String)
  | unexpectedValue (option : String)
  | repeated (option : String)
  | invalidValue (option : String) (value : Text)
  deriving DecidableEq

def UsageError.message : UsageError → String
  | .unknownOption option => s!"unexpected argument '{option.toString}' found"
  | .missingValue option => s!"a value is required for '{option}' but none was supplied"
  | .unexpectedValue option => s!"unexpected value for '{option}' found"
  | .repeated option => s!"the argument '{option}' cannot be used multiple times"
  | .invalidValue option value => s!"invalid value '{value.toString}' for '{option}'"

/-- The options that stand for themselves. -/
inductive Flag
  | skipStringNormalization
  | skipErrors
  | check
  | verbose
  | help
  | version
  deriving DecidableEq

/-- The options that have a value. -/
inductive Setting
  | lineLength
  | target
  | config
  | formatter
  deriving DecidableEq

def Flag.name : Flag → String
  | .skipStringNormalization => "--skip-string-normalization"
  | .skipErrors => "--skip-errors"
  | .check => "--check"
  | .verbose => "--verbose"
  | .help => "--help"
  | .version => "--version"

def Setting.name : Setting → String
  | .lineLength => "--line-length"
  | .target => "--target-version"
  | .config => "--config"
  | .formatter => "--formatter"

def longOption? (name : Text) : Option (Flag ⊕ Setting) :=
  let flags : List Flag :=
    [.skipStringNormalization, .skipErrors, .check, .verbose, .help, .version]
  let settings : List Setting := [.lineLength, .target, .config, .formatter]
  ((flags.find? (·.name.toList == name)).map .inl).or
    ((settings.find? (·.name.toList == name)).map .inr)

def shortOption? : Char → Option (Flag ⊕ Setting)
  | 'S' => some (.inl .skipStringNormalization)
  | 'E' => some (.inl .skipErrors)
  | 'v' => some (.inl .verbose)
  | 'h' => some (.inl .help)
  | 'V' => some (.inl .version)
  | 'l' => some (.inr .lineLength)
  | 't' => some (.inr .target)
  | _ => none

/-- A call that ends with an answer of its own. -/
inductive Notice
  | help
  | version
  deriving DecidableEq

/-- What stops the reading of arguments. -/
inductive Stop
  | usage (e : UsageError)
  | notice (n : Notice)
  deriving DecidableEq

/-- A flag may be given once. -/
def setFlag (i : Invocation) (f : Flag) : Except Stop Invocation :=
  let once (given : Bool) (i : Invocation) : Except Stop Invocation :=
    if given then .error (.usage (.repeated f.name)) else .ok i
  match f with
  | .skipStringNormalization =>
    once i.skipStringNormalization { i with skipStringNormalization := true }
  | .skipErrors => once i.skipErrors { i with skipErrors := true }
  | .check => once i.checkOnly { i with checkOnly := true }
  | .verbose => once i.verbose { i with verbose := true }
  | .help => .error (.notice .help)
  | .version => .error (.notice .version)

/-- A number of at most 64 bits, perhaps with a plus sign. -/
def lineLength? (t : Text) : Option Nat := do
  let n ← Text.digits? 10 (if t.head? = some '+' then t.drop 1 else t)
  if fitsWord n then some n else none

/-- Only target versions may be given more than once. -/
def setValue (i : Invocation) (s : Setting) (value : Text) : Except Stop Invocation :=
  let once (given : Bool) (new : Option Invocation) : Except Stop Invocation :=
    if given then .error (.usage (.repeated s.name))
    else match new with
      | some i => .ok i
      | none => .error (.usage (.invalidValue s.name value))
  match s with
  | .lineLength =>
    once i.lineLength.isSome ((lineLength? value).map fun n => { i with lineLength := some n })
  | .target =>
    once false ((Target.ofName? value).map fun v => { i with targets := i.targets ++ [v] })
  | .config =>
    once i.settingsFile.isSome
      (if value.isEmpty then none else some { i with settingsFile := some value })
  | .formatter => once i.formatter.isSome (some { i with formatter := some value })

def addFile (i : Invocation) (path : Path) : Except Stop Invocation :=
  if path.isEmpty then .error (.usage (.invalidValue "FILE" path))
  else .ok { i with files := i.files ++ [path] }

/-- How far the reading of an argument has come: it is read, or its value is the next one. -/
inductive Progress
  | done (i : Invocation)
  | awaiting (i : Invocation) (s : Setting)
  deriving DecidableEq

/-- Reads short options that are written together. What follows one that has a value is its value,
perhaps after an equals sign. -/
def readShort (i : Invocation) : Text → Except Stop Progress
  | [] => .ok (.done i)
  | c :: r =>
    match shortOption? c with
    | none => .error (.usage (.unknownOption ['-', c]))
    | some (.inl f) =>
      match setFlag i f with
      | .error e => .error e
      | .ok i => readShort i r
    | some (.inr s) =>
      if r.isEmpty then .ok (.awaiting i s)
      else (setValue i s (if r.head? = some '=' then r.drop 1 else r)).map .done

/-- Reads a long option, with its value if an equals sign stands between them. -/
def readLong (i : Invocation) (t : Text) : Except Stop Progress :=
  let name := t.takeWhile (· != '=')
  let value := match t.dropWhile (· != '=') with
    | _ :: v => some v
    | [] => none
  match longOption? name, value with
  | none, _ => .error (.usage (.unknownOption name))
  | some (.inl f), none => (setFlag i f).map .done
  | some (.inl f), some _ => .error (.usage (.unexpectedValue f.name))
  | some (.inr s), none => .ok (.awaiting i s)
  | some (.inr s), some v => (setValue i s v).map .done

/-- A hyphen alone is no option. -/
def isOption (t : Text) : Bool := t.head? == some '-' && t != ['-']

/-- Reads arguments in their order. After two hyphens there are only files. -/
def readFrom (i : Invocation) : List Text → Except Stop Invocation
  | [] => .ok i
  | t :: rest =>
    if t = ['-', '-'] then rest.foldlM addFile i
    else if isOption t then
      match if ['-', '-'].isPrefixOf t then readLong i t else readShort i (t.drop 1) with
      | .error e => .error e
      | .ok (.done i) => readFrom i rest
      | .ok (.awaiting i s) =>
        match rest with
        | [] => .error (.usage (.missingValue s.name))
        | value :: rest =>
          if isOption value then .error (.usage (.missingValue s.name))
          else match setValue i s value with
            | .error e => .error e
            | .ok i => readFrom i rest
    else match addFile i t with
      | .error e => .error e
      | .ok i => readFrom i rest

def read (arguments : List Text) : Except Stop Invocation := readFrom {} arguments

/-- The settings that a call replaces. A formatter is given as words with white space between
them. -/
def Invocation.overrides (i : Invocation) : Overrides where
  lineLength := i.lineLength
  targets := if i.targets.isEmpty then none else some i.targets
  skipStringNormalization := if i.skipStringNormalization then some true else none
  skipErrors := if i.skipErrors then some true else none
  formatterCommand := i.formatter.map Text.words

end FencedCode.CommandLine
