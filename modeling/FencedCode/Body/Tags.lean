import FencedCode.Text.Quoted

/-! Tag lines: the marker `:tags:` and a list of string literals after it. -/
namespace FencedCode

/-- Where and why the reading of a tag line stopped. -/
structure TagError where
  line : Text
  column : Nat
  reason : String
  deriving DecidableEq

def TagError.message (e : TagError) : String :=
  s!"invalid tag list at column {e.column}: {e.reason} in {e.line.quoted}"

namespace Tags

def marker : Text := ":tags:".toList

def isTagLine (line : Text) : Bool := marker.isPrefixOf line.trimStart

/-- The space that may stand between the parts of a list. -/
def isSpace (c : Char) : Bool := c == ' ' || c == '\t' || c == '\r' || c == '\n'

def skipSpace (t : Text) : Text := t.dropWhile isSpace

theorem skipSpace_length_le (t : Text) : (skipSpace t).length ≤ t.length := by
  unfold skipSpace
  induction t with
  | nil => simp
  | cons c r ih =>
    rw [List.dropWhile_cons]
    split
    · exact Nat.le_succ_of_le ih
    · exact Nat.le_refl _

/-- The character that a backslash and the given one stand for. -/
def unescape? (c : Char) : Option Char :=
  if c = '\\' || c = '\'' || c = '"' then some c
  else if c = 'n' then some '\n'
  else if c = 't' then some '\t'
  else if c = 'r' then some '\r'
  else none

/-- Reads the items of a literal up to its closing quote. -/
def items? (quote : Char) : Text → Option (Text × Text)
  | [] => none
  | c :: r =>
    if c = quote then some ([], r)
    else if c = '\\' then
      match r with
      | [] => none
      | e :: r =>
        match unescape? e with
        | none => none
        | some v => (items? quote r).map fun (s, rest) => (v :: s, rest)
    else if c = '\n' then none
    else (items? quote r).map fun (s, rest) => (c :: s, rest)

/-- Reads a literal in single or double quotes. -/
def literal? : Text → Option (Text × Text)
  | [] => none
  | c :: r => if c = '"' || c = '\'' then items? c r else none

theorem items?_length_lt {quote : Char} {t s rest : Text} (h : items? quote t = some (s, rest)) :
    rest.length < t.length := by
  fun_induction items? quote t generalizing s rest with
  | case1 => simp at h
  | case2 r => simp_all
  | case3 => simp at h
  | case4 => simp at h
  | case5 _ _ _ _ _ ih =>
    obtain ⟨⟨s', rest'⟩, hs, he⟩ := Option.map_eq_some_iff.1 h
    cases he
    have := ih hs
    simp only [List.length_cons]
    omega
  | case6 => simp at h
  | case7 _ _ _ _ _ ih =>
    obtain ⟨⟨s', rest'⟩, hs, he⟩ := Option.map_eq_some_iff.1 h
    cases he
    have := ih hs
    simp only [List.length_cons]
    omega

theorem literal?_length_lt {t s rest : Text} (h : literal? t = some (s, rest)) :
    rest.length < t.length := by
  unfold literal? at h
  split at h
  · simp at h
  · split at h
    · have := items?_length_lt h
      simp only [List.length_cons]
      omega
    · simp at h

/-- What follows a comma and the space around it. -/
def afterComma? (t : Text) : Option Text :=
  match skipSpace t with
  | ',' :: r => some (skipSpace r)
  | _ => none

theorem afterComma?_length_lt {t r : Text} (h : afterComma? t = some r) :
    r.length < t.length := by
  unfold afterComma? at h
  split at h
  · next r' h' =>
    cases h
    have h₁ := skipSpace_length_le t
    have h₂ := skipSpace_length_le r'
    rw [h'] at h₁
    simp only [List.length_cons] at h₁
    omega
  · simp at h

/-- The literals that follow the first one, and the text after the last of them. -/
def moreLiterals (t : Text) : List Text × Text :=
  match h : afterComma? t with
  | none => ([], t)
  | some r =>
    match h' : literal? r with
    | none => ([], t)
    | some (s, rest) =>
      have : rest.length < t.length :=
        Nat.lt_trans (literal?_length_lt h') (afterComma?_length_lt h)
      let (ss, rest) := moreLiterals rest
      (s :: ss, rest)
termination_by t.length

def literals (t : Text) : List Text × Text :=
  match literal? t with
  | none => ([], t)
  | some (s, rest) =>
    let (ss, rest) := moreLiterals rest
    (s :: ss, rest)

/-- Drops one comma and the space before it. -/
def skipComma (t : Text) : Text :=
  match skipSpace t with
  | ',' :: r => r
  | _ => t

/-- Reads a bracketed list. On failure the text from the first character that does not fit. -/
def list (t : Text) : Except Text (List Text × Text) :=
  match t with
  | '[' :: r =>
    let (ss, rest) := literals (skipSpace r)
    let rest := skipSpace (if ss.isEmpty then rest else skipComma rest)
    match rest with
    | ']' :: rest => .ok (ss, rest)
    | rest => .error rest
  | t => .error t

/-- The error at the place where `rest` is what remains of the line. -/
def errorAt (line rest : Text) (reason : String) : TagError :=
  ⟨line, line.length - rest.length + 1, reason⟩

/-- Reads a tag line. On failure the text from the first character that does not fit, and the
reason. -/
def read (line : Text) : Except (Text × String) (List Text) :=
  match marker.isPrefixOf? line.trimStart with
  | none => .error (line, "expected ':tags:'")
  | some rest =>
    match list (skipSpace rest) with
    | .error rest => .error (rest, "expected a list of string literals")
    | .ok (tags, rest) =>
      match skipSpace rest with
      | [] => .ok tags.eraseDups
      | rest => .error (rest, "unexpected input after tag list")

/-- The tags of a tag line, without repetitions, in the order of their first occurrence. -/
def parse (line : Text) : Except TagError (List Text) :=
  (read line).mapError fun stop => errorAt line stop.1 stop.2

end Tags

end FencedCode
