/-
This file holds the rules for comparisons. They bring a comparison of integers to a normal form,
in which only `<` and `<=` are left to order two values: a constant stands to the right of `<`
or to the left of `<=`. Then constants are moved to one side and common terms cancelled.
-/
import IndexAlgebra.Reduction.Sums

namespace IndexAlgebra.Reduction.Comparisons

open IndexAlgebra.Expr

/-- The operands of a comparison of integers. -/
def asIntComparison? (expr : Expr) : Option (BinaryOp × Expr × Expr) :=
  expr.asBinary?.filter fun (op, lhs, _) => op.isComparison && lhs.dtype.isInteger

/-- The quotient rounded up. -/
def ceilDiv (left right : Int) : Int := -((-left).fdiv right)

/-! ### Normal form -/

/-- `x - y < 0 = x < y`, `0 <= x - y = y <= x` -/
def compareDifference? (expr : Expr) : Option Expr := do
  let (op, lhs, rhs) ← asIntComparison? expr
  if rhs.isInt 0 then
    let (x, y) ← lhs.operands? .sub
    binary? op x y
  else
    guard (lhs.isInt 0)
    let (x, y) ← rhs.operands? .sub
    binary? op y x

/-- `x > y = y < x`, `x >= y = y <= x`, `x <= 3 = x < 4`, `3 < x = 4 <= x` -/
def normalize? (expr : Expr) : Option Expr := do
  let (op, lhs, rhs) ← expr.asBinary?
  match op with
  | .gt => binary? .lt rhs lhs
  | .ge => binary? .le rhs lhs
  | .le =>
    guard (lhs.dtype.isInteger && !lhs.isConst)
    binary? .lt lhs (← constantLike? rhs ((← rhs.asInt?) + 1))
  | .lt =>
    guard (lhs.dtype.isInteger && !rhs.isConst)
    binary? .le (← constantLike? lhs ((← lhs.asInt?) + 1)) rhs
  | _ => none

/-- `a == true = a`, `a == false = !a`, `a != true = !a`, `a != false = a` -/
def boolEquality? (expr : Expr) : Option Expr := do
  let (op, lhs, rhs) ← expr.asBinary?
  let value ← rhs.asBool?
  guard (op == .eq || op == .ne)
  if value = (op == .eq) then return lhs else not? lhs

/-! ### Known order -/

/-- The operands whose order decides a comparison. -/
def comparisonOperands? (expr : Expr) : Option (Expr × Expr) :=
  (asIntComparison? expr).map Prod.snd

/-- `x < y = true`, where `x < y` is known -/
def knownComparison? (relation : Relation) (expr : Expr) : Option Expr := do
  let (op, _, _) ← expr.asBinary?
  return ofInt expr.dtype (← relation.decides? op).toNat

/-! ### Constants -/

/-- `x + 3 < 5 = x < 2`, `x - 3 == 5 = x == 8`, `10 - x < 4 = 6 < x` -/
def moveLeftConstant? (op : BinaryOp) (sum : Expr) (value : Int) : Option Expr := do
  let (sumOp, a, b) ← sum.asBinary?
  match sumOp, a.asInt?, b.asInt? with
  | .add, _, some c => binaryConst? op a (value - c)
  | .sub, _, some c => binaryConst? op a (value + c)
  | .sub, some c, none =>
    if op = .eq ∨ op = .ne then binaryConst? op b (c - value) else constBinary? op (c - value) b
  | _, _, _ => none

/-- `2 <= x + 3 = -1 <= x`, `2 <= 10 - x = x <= 8` -/
def moveRightConstant? (op : BinaryOp) (value : Int) (sum : Expr) : Option Expr := do
  let (sumOp, a, b) ← sum.asBinary?
  match sumOp, a.asInt?, b.asInt? with
  | .add, _, some c => constBinary? op (value - c) a
  | .sub, _, some c => constBinary? op (value + c) a
  | .sub, some c, none => binaryConst? op b (c - value)
  | _, _, _ => none

/-- A comparison of a sum with a constant is one of its term with another constant. -/
def moveConstant? (expr : Expr) : Option Expr := do
  let (op, lhs, rhs) ← asIntComparison? expr
  match lhs.asInt?, rhs.asInt? with
  | _, some value => moveLeftConstant? op lhs value
  | some value, none => moveRightConstant? op value rhs
  | none, none => none

/-- `x * 4 < 10 = x < 3`, `x * -4 < 10 = -3 < x`, `x * 4 == 8 = x == 2`, `x * 4 == 10 = false` -/
def divideLeft? (dtype : DataType) (op : BinaryOp) (product : Expr) (value : Int) :
    Option Expr := do
  let (x, factor) ← product.withConst? .mul
  guard (factor ≠ 0)
  match op with
  | .lt =>
    if 0 < factor then binaryConst? op x (ceilDiv value factor)
    else constBinary? op (value.fdiv factor) x
  | .eq | .ne =>
    if value.tmod factor = 0 then binaryConst? op x (value.tdiv factor)
    else return ofInt dtype (op == .ne).toNat
  | _ => none

/-- `10 <= x * 4 = 3 <= x`, `10 <= x * -4 = x <= -3` -/
def divideRight? (op : BinaryOp) (value : Int) (product : Expr) : Option Expr := do
  let (x, factor) ← product.withConst? .mul
  guard (op == .le && factor != 0)
  if 0 < factor then constBinary? op (ceilDiv value factor) x
  else binaryConst? op x (value.fdiv factor)

/-- A comparison of a product with a constant is one of its factor with another constant. -/
def divideComparison? (expr : Expr) : Option Expr := do
  let (op, lhs, rhs) ← asIntComparison? expr
  match lhs.asInt?, rhs.asInt? with
  | _, some value => divideLeft? expr.dtype op lhs value
  | some value, none => divideRight? op value rhs
  | none, none => none

/-! ### Common terms -/

/-- The operands left after the common term of two sums, two differences or two products is
cancelled, or of a sum or difference and one of its terms. -/
def cancelled? (op : BinaryOp) (lhs rhs : Expr) : Option (Expr × Expr) :=
  let zero? := constantLike? lhs 0
  match lhs.operands? .add, rhs.operands? .add with
  | some left, some right => Sums.withoutShared? left right
  | leftSum?, rightSum? =>
    match lhs.operands? .sub, rhs.operands? .sub with
    | some (a, b), some (c, d) =>
      if a = c then some (d, b) else if b = d then some (a, c) else none
    | leftDifference?, rightDifference? =>
      match lhs.withConst? .mul, rhs.withConst? .mul with
      | some (x, c), some (y, d) =>
        if c = 0 ∨ c ≠ d then none
        else if 0 < c ∨ op = .eq ∨ op = .ne then some (x, y)
        else some (y, x)
      | _, _ =>
        if leftSum?.isSome then do return (← Sums.otherOperand? lhs .add rhs, ← zero?)
        else if rightSum?.isSome then do
          let other ← Sums.otherOperand? rhs .add lhs
          return (← zero?, other)
        else
          match leftDifference?, rightDifference? with
          | some (a, b), _ => if a = rhs then zero?.map (·, b) else none
          | none, some (a, b) => if a = lhs then zero?.map (b, ·) else none
          | none, none => none

/-- `x + y < x + z = y < z`, `x + y < x = y < 0`, `x - y < x - z = z < y`,
`x * 4 < y * 4 = x < y` -/
def cancelComparison? (expr : Expr) : Option Expr := do
  let (op, lhs, rhs) ← asIntComparison? expr
  let (left, right) ← cancelled? op lhs rhs
  binary? op left right

/-! ### Divisions -/

/-- The two sides of a comparison in normal form with a constant: the side that is no constant
and the constant. -/
def againstConst? (expr : Expr) : Option (BinaryOp × Expr × Int) := do
  let (op, lhs, rhs) ← expr.asBinary?
  match op with
  | .lt => return (op, lhs, ← rhs.asInt?)
  | .le => return (op, rhs, ← lhs.asInt?)
  | _ => none

/-- The comparison in normal form of an expression with a constant. -/
def normalForm? (op : BinaryOp) (term : Expr) (value : Int) : Option Expr :=
  if op = .lt then binaryConst? op term value else constBinary? op value term

/-- `x * 8 + y < 16 = x < 2`, `16 <= x * 8 + y = 2 <= x`, where `0 <= y < 8` -/
def dropRemainder? (evidence : Evidence) (expr : Expr) : Option Expr := do
  let (op, sum, value) ← againstConst? expr
  let (a, b) ← sum.operands? .add
  let ((x, factor), y) ←
    match a.withConst? .mul with
    | some term => some (term, b)
    | none => (b.withConst? .mul).map (·, a)
  guard (0 < factor ∧ value.tmod factor = 0)
  let bound := evidence.bound y
  guard bound.isNonNegative
  guard ((← bound.upper.finite?) < factor)
  normalForm? op x (value.tdiv factor)

/-- `floordiv(x, 4) < 3 = x < 12`, `3 <= floordiv(x, 4) = 12 <= x` -/
def compareFloorDiv? (expr : Expr) : Option Expr := do
  let (op, quotient, value) ← againstConst? expr
  let (x, divisor) ← quotient.withConst? .floorDiv
  guard (0 < divisor)
  normalForm? op x (value * divisor)

/-! ### The rules -/

/-- The rules of this file, in the order they are tried on comparisons. -/
def rules : List Rule :=
  [.pure .compareDifference compareDifference?,
    .pure .normalizeComparison normalize?,
    .pure .boolEquality boolEquality?,
    .comparing .compareKnown comparisonOperands? knownComparison?,
    .pure .moveConstant moveConstant?,
    .pure .divideComparison divideComparison?,
    .pure .cancelComparison cancelComparison?,
    .plain .dropRemainder dropRemainder?,
    .pure .compareFloorDiv compareFloorDiv?]

end IndexAlgebra.Reduction.Comparisons
