/-! Three-way comparison of two replicas of a value with the version both last had. -/

namespace ThreeWay

variable {α : Type} [DecidableEq α]

/-- What to do about a value. -/
inductive Verdict
  | nothing
  | push
  | pull
  | dropSource
  | dropTarget
  | conflict
  deriving DecidableEq

/-- A side that differs from the base has changed; the change of one side is carried over to the
other. -/
def verdict (base : Option α) : Option α → Option α → Verdict
  | some a, some b =>
    if a = b then .nothing
    else if base ≠ some a ∧ base ≠ some b then .conflict
    else if base ≠ some a then .push
    else .pull
  | some a, none => if base = some a then .dropSource else .push
  | none, some b => if base = some b then .dropTarget else .pull
  | none, none => .nothing

end ThreeWay
