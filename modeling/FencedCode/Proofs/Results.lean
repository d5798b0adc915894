import Mathlib.Control.Basic

/-! Results that may be errors: when a result comes out of a step that changes it, or out of two
steps of which the second one needs what the first one gives. -/
namespace FencedCode.Except

variable {ε ε' α β : Type}

theorem map_eq_ok_iff {g : α → β} {x : Except ε α} {b : β} :
    x.map g = .ok b ↔ ∃ a, x = .ok a ∧ g a = b := by
  cases x <;> simp [Except.map]

theorem map_eq_error_iff {g : α → β} {x : Except ε α} {e : ε} :
    x.map g = .error e ↔ x = .error e := by
  cases x <;> simp [Except.map]

theorem mapError_eq_ok_iff {f : ε → ε'} {x : Except ε α} {a : α} :
    x.mapError f = .ok a ↔ x = .ok a := by
  cases x <;> simp [Except.mapError]

theorem mapError_eq_map_iff {x : Except ε α} {y : Except ε' β} {f : ε → ε'} {g : β → α} :
    x.mapError f = y.map g ↔
      (∃ e, x = .error e ∧ y = .error (f e)) ∨ ∃ b, x = .ok (g b) ∧ y = .ok b := by
  cases x <;> cases y <;> simp [Except.mapError, Except.map, eq_comm]

theorem bind_eq_ok_iff {x : Except ε α} {f : α → Except ε β} {b : β} :
    (x >>= f) = .ok b ↔ ∃ a, x = .ok a ∧ f a = .ok b := by
  cases x <;> simp [bind, Except.bind]

theorem bind_eq_error_iff {x : Except ε α} {f : α → Except ε β} {e : ε} :
    (x >>= f) = .error e ↔ x = .error e ∨ ∃ a, x = .ok a ∧ f a = .error e := by
  cases x <;> simp [bind, Except.bind]

end FencedCode.Except
