import Preload.Program
/-!
# Hoisting

Statements of higher rank move to the front of the body; among equals the order stays.
-/

namespace Preload.Program

/-- Whether `a` may stay in front of `b`. -/
def mayPrecede (a b : Statement) : Bool :=
  b.hoist.rank ≤ a.hoist.rank

/-- Sorts the body by falling rank. A body in which no statement asks to move is left alone. -/
def hoist (p : Program) : Program :=
  if p.body.all (·.hoist = .standard) then p
  else { p with body := p.body.mergeSort mayPrecede }

end Preload.Program
