/-
This file holds the rules for the smaller and the greater of two integers.
-/
import IndexAlgebra.Reduction.Rule

namespace IndexAlgebra.Reduction.Extrema

open IndexAlgebra.Expr

/-- The operands of `min` or `max`. -/
def asExtremum? (expr : Expr) : Option (BinaryOp × Expr × Expr) :=
  expr.asBinary?.filter fun (op, _, _) => op == .min || op == .max

/-- The term is an operand of the node with the operator. -/
def hasOperand (op : BinaryOp) (node term : Expr) : Bool :=
  match node.operands? op with
  | some (a, b) => decide (a = term ∨ b = term)
  | none => false

/-- `min(min(x, 3), 5) = min(x, 3)`, `max(max(x, 3), 5) = max(x, 5)` -/
def extremumOfConstants? (expr : Expr) : Option Expr := do
  let (op, inner, second) ← asExtremum? expr
  let second ← second.asInt?
  let (x, first) ← inner.withConst? op
  binaryConst? op x (if op = .min then min first second else max first second)

/-- `min(x, max(x, y)) = x`, `max(min(x, y), x) = x` -/
def absorb? (expr : Expr) : Option Expr := do
  let (op, a, b) ← asExtremum? expr
  if hasOperand op.dual b a then return a
  else if hasOperand op.dual a b then return b
  else none

/-- `min(min(x, y), x) = min(x, y)`, `min(y, min(x, y)) = min(x, y)` -/
def repeated? (expr : Expr) : Option Expr := do
  let (op, a, b) ← asExtremum? expr
  if hasOperand op a b then return a
  else if hasOperand op b a then return b
  else none

/-- `min(a + b, a + c) = a + min(b, c)`, `min(b - a, c - a) = min(b, c) - a`,
`min(a - b, a - c) = a - max(b, c)` -/
def commonTerm? (expr : Expr) : Option Expr := do
  let (op, lhs, rhs) ← asExtremum? expr
  match lhs.operands? .add, rhs.operands? .add, lhs.operands? .sub, rhs.operands? .sub with
  | some (a, b), some (c, d), _, _ =>
    if a = c then binary? .add a (← binary? op b d)
    else if b = d then binary? .add (← binary? op a c) b
    else if a = d then binary? .add a (← binary? op b c)
    else if b = c then binary? .add (← binary? op a d) b
    else none
  | _, _, some (a, b), some (c, d) =>
    if b = d then binary? .sub (← binary? op a c) b
    else if a = c then binary? .sub a (← binary? op.dual b d)
    else none
  | _, _, _, _ => none

/-- The extremum of `x` and `value / c`, where `value` is a multiple of a positive `c`. -/
def scaledConstant? (op : BinaryOp) (x : Expr) (c : Int) (rhs : Expr) : Option Expr := do
  let value ← rhs.asInt?
  guard (0 ≤ c ∧ value.tmod c = 0)
  binaryConst? op x (value.tdiv c)

/-- `min(x * 4, y * 4) = min(x, y) * 4`, `min(x * -4, y * -4) = max(x, y) * -4`,
`min(x * 4, 12) = min(x, 3) * 4` -/
def scale? (expr : Expr) : Option Expr := do
  let (op, lhs, rhs) ← asExtremum? expr
  let (x, c) ← lhs.withConst? .mul
  guard (c ≠ 0)
  let inner ←
    match rhs.withConst? .mul with
    | some (y, d) =>
      if d = c then binary? (if 0 < c then op else op.dual) x y else scaledConstant? op x c rhs
    | none => scaledConstant? op x c rhs
  binary? .mul inner (← constantLike? x c)

/-- The operands whose order decides an extremum. -/
def extremumOperands? (expr : Expr) : Option (Expr × Expr) := (asExtremum? expr).map Prod.snd

/-- `min(x, y) = x`, where `x <= y` is known -/
def knownExtremum? (relation : Relation) (expr : Expr) : Option Expr := do
  let (op, x, y) ← asExtremum? expr
  match op, relation.isLe, relation.isGe with
  | .min, true, _ | .max, _, true => return x
  | .min, _, true | .max, true, _ => return y
  | _, _, _ => none

/-- The rules of this file, in the order they are tried on integers. -/
def rules : List Rule :=
  [.pure .minMaxConstants extremumOfConstants?,
    .pure .minMaxAbsorb absorb?,
    .pure .minMaxNested repeated?,
    .pure .minMaxCommonTerm commonTerm?,
    .pure .minMaxScale scale?,
    .comparing .minMaxKnown extremumOperands? knownExtremum?]

end IndexAlgebra.Reduction.Extrema
