/-! Character classes given as tables of code point ranges. -/
namespace FencedCode

/-- Membership in a table of inclusive code point ranges. -/
def inRanges (table : List (Nat × Nat)) (c : Char) : Bool :=
  table.any fun r => r.1 ≤ c.toNat && c.toNat ≤ r.2

end FencedCode
