/-
This file proves conditions. A proof that is not found says nothing about the condition.
-/
import IndexAlgebra.Analyzer.Canonical
import IndexAlgebra.Analyzer.Intervals

namespace IndexAlgebra

/-- How much is tried to prove a condition. -/
inductive ProofStrength where
  /-- The condition is simplified by reduction, and its bound is looked at. -/
  | simple
  /-- The condition is also brought to canonical form, and the sides of a comparison are compared
  over the symbolic ranges of variables. -/
  | symbolic
  deriving DecidableEq, Repr

namespace Analyzer

/-! ### Symbolic ranges -/

/-- One end of a symbolic interval after the variables in it that have a range are replaced by
the ends of their ranges, a limited number of times. Without a result when an end is infinite. -/
def expandEnd? (analyzer : Analyzer) (side : Interval → Option Expr) : Nat → Expr → Option Expr
  | 0, expr => some expr
  | rounds + 1, expr =>
    if expr.mentions.any fun name => (analyzer.known.ranges.find? name).isSome then
      match side (analyzer.inferInterval analyzer.known.ranges expr) with
      | some next => expandEnd? analyzer side rounds next
      | none => none
    else some expr

/-- The bound of one end of a symbolic interval passes a test. -/
def endSatisfies (analyzer : Analyzer) (side : Interval → Option Expr) (interval : Interval)
    (test : Bound → Bool) : Bool :=
  let expanded? := (side interval).bind (analyzer.expandEnd? side analyzer.limits.maxRecursionDepth)
  match expanded? with
  | some expr =>
    test (analyzer.known.inferBound
      (analyzer.canonical analyzer.limits.defaultSimplifySteps expr))
  | none => false

/-- The interval of a difference decides that the comparison of its operands holds. -/
def intervalProves (analyzer : Analyzer) (op : BinaryOp) (interval : Interval) : Bool :=
  let upper := analyzer.endSatisfies Interval.upper interval
  let lower := analyzer.endSatisfies Interval.lower interval
  match op with
  | .lt => upper Bound.isNegative
  | .le => upper Bound.isNonPositive
  | .gt => lower Bound.isPositive
  | .ge => lower Bound.isNonNegative
  | .eq => upper Bound.isNonPositive && lower Bound.isNonNegative
  | .ne => upper Bound.isNegative || lower Bound.isPositive
  | _ => false

/-- The condition is proved by the symbolic ranges of variables. -/
def provesSymbolically (analyzer : Analyzer) : Expr → Bool
  | .binary _ op lhs rhs =>
    if op = .and then provesSymbolically analyzer lhs && provesSymbolically analyzer rhs
    else if op = .or then provesSymbolically analyzer lhs || provesSymbolically analyzer rhs
    else if op.isComparison && lhs.dtype.isInteger && lhs.dtype.isScalar then
      match Expr.binary? .sub lhs rhs with
      | some difference =>
        analyzer.intervalProves op
          (analyzer.inferInterval analyzer.known.ranges (analyzer.reduce difference))
      | none => false
    else false
  | _ => false

/-! ### Proofs -/

/-- The condition is proved to be true under everything that is known. -/
def canProve (analyzer : Analyzer) (cond : Expr) (strength : ProofStrength) : Bool :=
  let simplified := analyzer.reduce cond
  match simplified.asBool? with
  | some value => value
  | none =>
    if simplified.dtype.isBool && 1 ≤ (analyzer.known.inferBound simplified).lower.toInt then true
    else
      match strength with
      | .simple => false
      | .symbolic =>
        let canonical := analyzer.canonical analyzer.limits.defaultSimplifySteps simplified
        canonical.asBool? == some true || analyzer.provesSymbolically canonical

/-- The two expressions are proved to be equal. -/
def canProveEqual (analyzer : Analyzer) (lhs rhs : Expr) : Bool :=
  if lhs = rhs then true
  else if lhs.dtype.isInteger then
    match Expr.binary? .sub lhs rhs with
    | some difference =>
      let difference := analyzer.simplify none difference
      difference.isInt 0 || (analyzer.known.inferBound difference).asPoint? == some 0
    | none => false
  else
    match Expr.binary? .eq lhs rhs with
    | some cond => analyzer.canProve cond .simple
    | none => false

/-- The integer comparison of an expression with a constant is proved, either by the bound of the
expression or as a condition. -/
def canProveAgainst (analyzer : Analyzer) (op : BinaryOp) (test : Bound → Bool) (expr : Expr)
    (value : Int) : Bool :=
  expr.dtype.isInteger &&
    (test (analyzer.known.inferBound expr) ||
      match Expr.binary? op expr (.ofIndex value) with
      | some cond => analyzer.canProve cond .simple
      | none => false)

/-- The expression is proved to be at least the value. -/
def canProveAtLeast (analyzer : Analyzer) (expr : Expr) (value : Int) : Bool :=
  analyzer.canProveAgainst .ge (fun bound => decide (Limit.finite value ≤ bound.lower)) expr value

/-- The expression is proved to be less than the value. -/
def canProveLess (analyzer : Analyzer) (expr : Expr) (value : Int) : Bool :=
  analyzer.canProveAgainst .lt (fun bound => decide (bound.upper < Limit.finite value)) expr value

end Analyzer

end IndexAlgebra
