namespace CodeCompletion.Text

/-- The code points `first`, `first + stride`, …, up to `last`. -/
structure CharRun where
  first : Nat
  last : Nat
  stride : Nat
  deriving Repr, DecidableEq

namespace CharRun

def has (r : CharRun) (n : Nat) : Bool :=
  decide (r.first ≤ n) && decide (n ≤ r.last) && decide ((n - r.first) % r.stride = 0)

def lists (table : Array CharRun) (c : Char) : Bool :=
  table.any (·.has c.toNat)

end CharRun

end CodeCompletion.Text
