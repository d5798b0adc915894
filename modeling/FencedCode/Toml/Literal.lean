import FencedCode.Toml.Value

/-! The numbers, booleans and times of TOML. -/
namespace FencedCode.Toml

/-- Digits with single underscores between them, without the underscores. -/
def digitRun? (isDigit : Char → Bool) (t : Text) : Option (Text × Text) :=
  let run := t.takeWhile fun c => isDigit c || c == '_'
  let rest := t.dropWhile fun c => isDigit c || c == '_'
  if run.isEmpty || run.head? == some '_' || run.getLast? == some '_' || doubled run then none
  else some (run.filter (· != '_'), rest)
where
  doubled : Text → Bool
    | '_' :: '_' :: _ => true
    | _ :: r => doubled r
    | [] => false

def bounded (n : Int) (rest : Text) : Except Problem (Value × Text) :=
  if fitsSignedWord n then .ok (.integer n, rest) else .error .number

def basedInteger (base : Nat) (t : Text) : Except Problem (Value × Text) :=
  match digitRun? (fun c => (hexDigit? c).any (· < base)) t with
  | none => .error .number
  | some (digits, rest) =>
    match Text.digits? base digits with
    | some n => bounded n rest
    | none => .error .number

/-- The fraction of a number, if there is one. -/
def fraction (t : Text) : Except Problem (Text × Text) :=
  match t with
  | '.' :: r =>
    match digitRun? Char.isDigit r with
    | some (digits, rest) => .ok ('.' :: digits, rest)
    | none => .error .number
  | t => .ok ([], t)

/-- The exponent of a number, if there is one. -/
def exponent (t : Text) : Except Problem (Text × Text) :=
  match t with
  | e :: r =>
    if e = 'e' ∨ e = 'E' then
      let (sign, r) := match r with
        | '+' :: r => (['+'], r)
        | '-' :: r => (['-'], r)
        | r => ([], r)
      match digitRun? Char.isDigit r with
      | some (digits, rest) => .ok ('e' :: sign ++ digits, rest)
      | none => .error .number
    else .ok ([], t)
  | [] => .ok ([], [])

/-- Reads a decimal number after its sign. A positive float must not be too large. -/
def decimalNumber (negative : Bool) (t : Text) : Except Problem (Value × Text) := do
  match digitRun? Char.isDigit t with
  | none => .error .number
  | some (whole, rest) =>
    if whole.head? = some '0' ∧ 1 < whole.length then .error .number
    else
      let (part, rest) ← fraction rest
      let (power, rest) ← exponent rest
      if part.isEmpty && power.isEmpty then
        match Text.digits? 10 whole with
        | some n => bounded (if negative then -(n : Int) else n) rest
        | none => .error .number
      else
        let literal := whole ++ part ++ power
        let finite := ((Text.decimal? literal).bind Decimal.toFloat?).isSome
        if finite || negative then
          .ok (.float (if negative then '-' :: literal else literal), rest)
        else .error .number

/-- Reads a number after its sign. -/
def unsignedNumber (negative : Bool) (t : Text) : Except Problem (Value × Text) :=
  let sign := if negative then ['-'] else []
  match t with
  | 'i' :: 'n' :: 'f' :: r => .ok (.float (sign ++ ['i', 'n', 'f']), r)
  | 'n' :: 'a' :: 'n' :: r => .ok (.float (sign ++ ['n', 'a', 'n']), r)
  | t => decimalNumber negative t

def number (t : Text) : Except Problem (Value × Text) :=
  match t with
  | '0' :: 'x' :: r => basedInteger 16 r
  | '0' :: 'o' :: r => basedInteger 8 r
  | '0' :: 'b' :: r => basedInteger 2 r
  | '+' :: r => unsignedNumber false r
  | '-' :: r => unsignedNumber true r
  | t => unsignedNumber false t

/-- Exactly `n` digits. -/
def fixedDigits? (n : Nat) (t : Text) : Option (Nat × Text) :=
  let digits := t.take n
  if digits.length = n ∧ digits.all Char.isDigit then
    (Text.digits? 10 digits).map (·, t.drop n)
  else none

def skip? (c : Char) : Text → Option Text
  | d :: r => if c = d then some r else none
  | [] => none

def daysOf (year month : Nat) : Nat :=
  if month = 2 then
    if year % 4 = 0 ∧ (year % 100 ≠ 0 ∨ year % 400 = 0) then 29 else 28
  else if month = 4 ∨ month = 6 ∨ month = 9 ∨ month = 11 then 30
  else 31

/-- What follows a date. -/
def date? (t : Text) : Option Text := do
  let (year, t) ← fixedDigits? 4 t
  let (month, t) ← fixedDigits? 2 (← skip? '-' t)
  let (day, t) ← fixedDigits? 2 (← skip? '-' t)
  if 1 ≤ month ∧ month ≤ 12 ∧ 1 ≤ day ∧ day ≤ daysOf year month then some t else none

/-- What follows a time of day. The second 60 is a leap second. -/
def clock? (t : Text) : Option Text := do
  let (hour, t) ← fixedDigits? 2 t
  let (minute, t) ← fixedDigits? 2 (← skip? ':' t)
  let (second, t) ← fixedDigits? 2 (← skip? ':' t)
  if hour < 24 ∧ minute < 60 ∧ second ≤ 60 then
    match t with
    | '.' :: d :: r => some (if d.isDigit then r.dropWhile Char.isDigit else t)
    | t => some t
  else none

/-- What follows an offset from universal time. -/
def offset? (t : Text) : Option Text :=
  match t with
  | c :: r =>
    if c = 'Z' ∨ c = 'z' then some r
    else if c = '+' ∨ c = '-' then do
      let (hour, r) ← fixedDigits? 2 r
      let (minute, r) ← fixedDigits? 2 (← skip? ':' r)
      if hour < 24 ∧ minute < 60 then some r else none
    else none
  | [] => none

/-- What follows a date with a time, a date or a time of day. -/
def afterTime? (t : Text) : Option Text :=
  match date? t with
  | none => clock? t
  | some r =>
    let clock := match r with
      | c :: s => if c = 'T' ∨ c = 't' ∨ c = ' ' then clock? s else none
      | [] => none
    match clock with
    | none => some r
    | some s => some ((offset? s).getD s)

/-- Reads a time or a number. -/
def timeOrNumber (t : Text) : Except Problem (Value × Text) :=
  match afterTime? t with
  | some rest => .ok (.time (t.take (t.length - rest.length)), rest)
  | none => number t

/-- Reads a value that is neither a string nor a collection. -/
def literal (t : Text) : Except Problem (Value × Text) :=
  match t with
  | 't' :: 'r' :: 'u' :: 'e' :: r => .ok (.boolean true, r)
  | 'f' :: 'a' :: 'l' :: 's' :: 'e' :: r => .ok (.boolean false, r)
  | t => timeOrNumber t

end FencedCode.Toml
