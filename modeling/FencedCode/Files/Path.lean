import FencedCode.Location

/-! Paths as they are written, and the directories that lie around them. -/
namespace FencedCode.Path

/-- A name inside the directory of a path; the empty path is the working directory. -/
def join (p : Path) (name : Text) : Path :=
  if p.isEmpty then name
  else if p.getLast? = some '/' then p ++ name
  else p ++ '/' :: name

/-- Drops slashes and single dots from the start of a path that is written backwards. The first
slash of an absolute path and the dot that starts a path stay. -/
def trimBackwards : Text → Text
  | ['/'] => ['/']
  | '/' :: r => trimBackwards r
  | '.' :: '/' :: r => trimBackwards ('/' :: r)
  | t => t
termination_by t => t.length

theorem length_trimBackwards_le (t : Text) : (trimBackwards t).length ≤ t.length := by
  fun_induction trimBackwards t with
  | case1 => simp
  | case2 r _ ih => simp only [List.length_cons]; omega
  | case3 r ih => simp only [List.length_cons] at ih ⊢; omega
  | case4 => simp

/-- The path without its last component. The empty path and the root have none. -/
def parent? (p : Path) : Option Path :=
  match trimBackwards p.reverse with
  | [] => none
  | ['/'] => none
  | _ :: r => some (trimBackwards (r.dropWhile (· != '/'))).reverse

theorem length_lt_of_parent? {p q : Path} (h : parent? p = some q) : q.length < p.length := by
  have hp := length_trimBackwards_le p.reverse
  unfold parent? at h
  split at h
  · contradiction
  · contradiction
  · rename_i c r _ heq
    rw [heq] at hp
    have hq := length_trimBackwards_le (r.dropWhile (· != '/'))
    have hd : (r.dropWhile (· != '/')).length ≤ r.length :=
      (List.dropWhile_sublist _).length_le
    have hs : (trimBackwards (r.dropWhile (· != '/'))).reverse = q := Option.some.inj h
    rw [← hs]
    simp only [List.length_reverse, List.length_cons] at hp ⊢
    omega

/-- A path and what remains of it as one component after the other is dropped, nearest first. -/
def ancestors (p : Path) : List Path :=
  match h : parent? p with
  | none => [p]
  | some q =>
    have := length_lt_of_parent? h
    p :: ancestors q
termination_by p.length

end FencedCode.Path
