/-
This file holds the rules for choices: the node that evaluates both of its values, and the call
that evaluates only the one it takes.
-/
import IndexAlgebra.Reduction.Rule

namespace IndexAlgebra.Reduction.Choices

open IndexAlgebra.Expr

/-- The condition and the two values of a choice of either kind. -/
def asChoice? : Expr → Option (Expr × Expr × Expr)
  | .select _ cond onTrue onFalse => some (cond, onTrue, onFalse)
  | .call _ .ifThenElse [cond, onTrue, onFalse] => some (cond, onTrue, onFalse)
  | _ => none

/-- A choice of the same kind as another one. -/
def rebuild? (like cond onTrue onFalse : Expr) : Option Expr :=
  match like with
  | .select .. => select? cond onTrue onFalse
  | _ => some (.call like.dtype .ifThenElse [cond, onTrue, onFalse])

/-- `select(true, a, b) = a`, `select(false, a, b) = b` -/
def ofConstant? (expr : Expr) : Option Expr := do
  let (cond, onTrue, onFalse) ← asChoice? expr
  return if ← cond.asBool? then onTrue else onFalse

/-- `select(c, a, a) = a` -/
def ofSame? (expr : Expr) : Option Expr := do
  let (_, onTrue, onFalse) ← asChoice? expr
  guard (decide (onTrue = onFalse))
  return onTrue

/-- `select(!c, a, b) = select(c, b, a)` -/
def ofNegated? (expr : Expr) : Option Expr := do
  let (cond, onTrue, onFalse) ← asChoice? expr
  rebuild? expr (← cond.asNot?) onFalse onTrue

/-- `select(x < y, x, y) = min(x, y)`, `select(x < y, y, x) = max(x, y)`, and so for `<=` -/
def toMinMax? : Expr → Option Expr
  | .select dtype cond onTrue onFalse => do
    guard dtype.isInteger
    let (op, a, b) ← cond.asBinary?
    guard (op == .lt || op == .le)
    if onTrue = a ∧ onFalse = b then binary? .min a b
    else if onTrue = b ∧ onFalse = a then binary? .max a b
    else none
  | _ => none

/-- `select(c, select(c, a, b), d) = select(c, a, d)`,
`select(c, a, select(c, b, d)) = select(c, a, d)` -/
def ofNested? (expr : Expr) : Option Expr := do
  let (cond, onTrue, onFalse) ← asChoice? expr
  let taken? := (asChoice? onTrue).filter fun (inner, _) => inner = cond
  let other? := (asChoice? onFalse).filter fun (inner, _) => inner = cond
  match taken?, other? with
  | some (_, taken, _), _ => rebuild? expr cond taken onFalse
  | none, some (_, _, other) => rebuild? expr cond onTrue other
  | none, none => none

/-- The rules of this file, in the order they are tried. -/
def rules : List Rule :=
  [.pure .selectConstant ofConstant?,
    .pure .selectSame ofSame?,
    .pure .selectNegated ofNegated?,
    .pure .selectToMinMax toMinMax?,
    .pure .selectNested ofNested?]

end IndexAlgebra.Reduction.Choices
