/-
This file holds the rules for conditions: conjunctions, disjunctions and negations, and what
follows from the conditions that are known to be true. It also reads a condition as a range.
-/
import IndexAlgebra.Reduction.Rule

namespace IndexAlgebra.Reduction.Conditions

open IndexAlgebra.Expr

/-! ### Negations and ranges -/

/-- The condition that is true exactly when this one is false, with the order of two values
written by `<` and `<=` alone. A comparison of floating-point values is negated as a whole, since
both it and its opposite fail of what is not a number. -/
def negation? (cond : Expr) : Option Expr :=
  match cond with
  | .not _ value => some value
  | .binary _ op lhs rhs =>
    if lhs.dtype.isFloat then not? cond
    else
      match op with
      | .lt => binary? .le rhs lhs
      | .le => binary? .lt rhs lhs
      | .gt => binary? .le lhs rhs
      | .ge => binary? .lt lhs rhs
      | .eq => binary? .ne lhs rhs
      | .ne => binary? .eq lhs rhs
      | _ => not? cond
  | _ => not? cond

/-- The integers that are in the relation to a constant, for a relation that holds on a range. -/
def rangeTo? (op : BinaryOp) (value : Int) : Option Bound :=
  match op with
  | .lt => some ⟨.negInf, .ofInt (value - 1)⟩
  | .le => some ⟨.negInf, .ofInt value⟩
  | .gt => some ⟨.ofInt (value + 1), .posInf⟩
  | .ge => some ⟨.ofInt value, .posInf⟩
  | .eq => some (.point value)
  | _ => none

/-- The integer that a condition compares with a constant, and the range that the condition
restricts it to: `x < 5` restricts `x` to `[-inf, 4]`. -/
def asRange? (cond : Expr) : Option (Expr × Bound) := do
  let (op, lhs, rhs) ← cond.asBinary?
  guard (lhs.dtype.isInteger && lhs.dtype.isScalar)
  match lhs.asInt?, rhs.asInt? with
  | none, some value => return (lhs, ← rangeTo? op value)
  | some value, none => return (rhs, ← rangeTo? (← op.flip?) value)
  | _, _ => none

/-! ### Negations -/

/-- `!!a = a` -/
def doubleNegation? (expr : Expr) : Option Expr := do (← expr.asNot?).asNot?

/-- `!(x < y) = y <= x`, `!(x == y) = x != y` -/
def negateComparison? (expr : Expr) : Option Expr := do
  let cond ← expr.asNot?
  let (op, lhs, _) ← cond.asBinary?
  guard (op.isComparison && !lhs.dtype.isFloat)
  negation? cond

/-- `!(a && b) = !a || !b`, `!(a || b) = !a && !b` -/
def deMorgan? (expr : Expr) : Option Expr := do
  let (op, a, b) ← (← expr.asNot?).asBinary?
  guard op.isLogical
  binary? (if op = .and then .or else .and) (← not? a) (← not? b)

/-! ### Two conditions -/

/-- `a && !a = false`, `x < y || y <= x = true` -/
def complement? (expr : Expr) : Option Expr := do
  let (op, a, b) ← expr.asBinary?
  guard (op.isLogical && decide (negation? a = some b))
  return ofInt expr.dtype (op == .or).toNat

/-- Two conditions on one integer: the operator between them and the two ranges. -/
def asRanges? (evidence : Evidence) (expr : Expr) : Option (BinaryOp × Bound × Bound) := do
  let (op, a, b) ← expr.asBinary?
  let (x, first) ← evidence.range a
  let (y, second) ← evidence.range b
  guard (decide (x = y))
  return (op, first, second)

/-- No integer is in both ranges. -/
def areDisjoint (first second : Bound) : Bool :=
  let both := first.intersect second
  decide (¬both.lower ≤ both.upper)

/-- Every integer is in one of the two ranges: one of them has no lower end, the other has no
upper end, and they meet without a gap. -/
def coverAll (first second : Bound) : Bool :=
  let (low, high) := if first.lower = .negInf then (first, second) else (second, first)
  low.lower == .negInf && high.upper == .posInf &&
    match low.upper, high.lower with
    | .finite last, .finite next => decide (next ≤ last + 1)
    | _, _ => true

/-- `x < 3 && 5 <= x = false`, `x < 5 || 3 <= x = true` -/
def contradiction? (evidence : Evidence) (expr : Expr) : Option Expr := do
  let (op, first, second) ← asRanges? evidence expr
  match op with
  | .and =>
    guard (areDisjoint first second)
    return ofInt expr.dtype 0
  | .or =>
    guard (coverAll first second)
    return ofInt expr.dtype 1
  | _ => none

/-- `x < 3 && x < 5 = x < 3`, `x < 3 || x < 5 = x < 5` -/
def mergeRanges? (evidence : Evidence) (expr : Expr) : Option Expr := do
  let (_, a, b) ← expr.asBinary?
  let (op, first, second) ← asRanges? evidence expr
  let (inner, outer) ←
    if first.isSubsetOf second then some (a, b)
    else if second.isSubsetOf first then some (b, a)
    else none
  match op with
  | .and => return inner
  | .or => return if first = second then a else outer
  | _ => none

/-! ### Known conditions -/

/-- `x < 5 = true` where `x < 5` is known, and `5 <= x = false` there -/
def knownLiteral? (evidence : Evidence) (expr : Expr) : Option Expr := do
  guard (expr.dtype.isBool && expr.dtype.isScalar && !expr.isConst)
  let value ← evidence.truths.findSome? fun cond =>
    if cond = expr then some true
    else if negation? cond = some expr then some false
    else none
  return ofBool value

/-! ### The rules -/

/-- The rule for every condition. -/
def knownRules : List Rule := [.plain .knownLiteral knownLiteral?]

/-- The rules for conjunctions, disjunctions and negations, in the order they are tried. -/
def rules : List Rule :=
  [.pure .doubleNegation doubleNegation?,
    .pure .negateComparison negateComparison?,
    .pure .deMorgan deMorgan?,
    .pure .complement complement?,
    .plain .contradiction contradiction?,
    .plain .mergeRanges mergeRanges?]

end IndexAlgebra.Reduction.Conditions
