/-
This file holds the rules that hold for every operator: folding constants, moving a constant to
the right, and the identities of zero, one and equal operands.
-/
import IndexAlgebra.Reduction.Rule

namespace IndexAlgebra.Reduction.Identities

open IndexAlgebra.Expr

/-! ### Constants -/

/-- An operator on two integer constants of a type. A quotient or remainder by zero, and a
result that the type cannot hold, are not folded. -/
def foldInts? (dtype : DataType) (op : BinaryOp) (left right : Int) : Option Expr :=
  match op with
  | .add => constant? dtype (left + right)
  | .sub => constant? dtype (left - right)
  | .mul => constant? dtype (left * right)
  | .truncDiv => if right = 0 then none else constant? dtype (left.tdiv right)
  | .truncMod => if right = 0 then none else constant? dtype (left.tmod right)
  | .floorDiv => if right = 0 then none else constant? dtype (left.fdiv right)
  | .floorMod => if right = 0 then none else constant? dtype (left.fmod right)
  | .min => constant? dtype (min left right)
  | .max => constant? dtype (max left right)
  | .eq => some (ofBool (decide (left = right)))
  | .ne => some (ofBool (decide (left ≠ right)))
  | .lt => some (ofBool (decide (left < right)))
  | .le => some (ofBool (decide (left ≤ right)))
  | .gt => some (ofBool (decide (right < left)))
  | .ge => some (ofBool (decide (right ≤ left)))
  | .and | .or => none

/-- An operator on two floating-point constants of a type. -/
def foldFloats? (dtype : DataType) (op : BinaryOp) (left right : Binary64) : Option Expr :=
  match op with
  | .add => some (ofFloat dtype (left.add right))
  | .sub => some (ofFloat dtype (left.sub right))
  | .mul => some (ofFloat dtype (left.mul right))
  | .truncDiv => if right.isZero then none else some (ofFloat dtype (left.div right))
  | .min => some (ofFloat dtype (left.min right))
  | .max => some (ofFloat dtype (left.max right))
  | .eq => some (ofBool (left.eq right))
  | .ne => some (ofBool (!left.eq right))
  | .lt => some (ofBool (left.lt right))
  | .le => some (ofBool (left.le right))
  | .gt => some (ofBool (right.lt left))
  | .ge => some (ofBool (right.le left))
  | .truncMod | .floorDiv | .floorMod | .and | .or => none

/-- An operator on two truth constants. -/
def foldBools? (op : BinaryOp) (left right : Bool) : Option Expr :=
  match op with
  | .and => some (ofBool (left && right))
  | .or => some (ofBool (left || right))
  | .eq => some (ofBool (left == right))
  | .ne => some (ofBool (left != right))
  | _ => none

/-- `1 + 2 = 3`, `3 < 4 = true`, `!false = true` -/
def foldConstants? : Expr → Option Expr
  | .binary _ op (.intConst dtype left) (.intConst _ right) => foldInts? dtype op left right
  | .binary _ op (.floatConst dtype left) (.floatConst _ right) => foldFloats? dtype op left right
  | .binary _ op (.boolConst _ left) (.boolConst _ right) => foldBools? op left right
  | .not _ (.boolConst _ value) => some (ofBool !value)
  | _ => none

/-- The operator commutes, and only its left operand is a constant. -/
def hasConstantOnLeft (expr : Expr) : Bool :=
  match expr.asBinary? with
  | some (op, lhs, rhs) => op.isCommutative && lhs.isConst && !rhs.isConst
  | none => false

/-- `1 + x = x + 1`, `2 == x = x == 2` -/
def constantToRight? (expr : Expr) : Option Expr := do
  let (op, lhs, rhs) ← expr.asBinary?
  binary? op rhs lhs

/-- `x = 3`, where the bound of `x` is `[3, 3]` -/
def knownValue? (evidence : Evidence) (expr : Expr) : Option Expr := do
  guard (expr.dtype.isInteger && expr.dtype.isScalar && !expr.isConst)
  constantLike? expr (← (evidence.bound expr).asPoint?)

/-! ### Zero, one and equal operands -/

/-- `x + 0 = x`, `x - 0 = x` -/
def addZero? (expr : Expr) : Option Expr := do
  let (op, lhs, rhs) ← expr.asBinary?
  guard ((op == .add || op == .sub) && expr.dtype.isInteger && rhs.isInt 0)
  return lhs

/-- `x - x = 0` -/
def subtractSelf? (expr : Expr) : Option Expr := do
  let (lhs, rhs) ← expr.operands? .sub
  guard (expr.dtype.isInteger && decide (lhs = rhs))
  return ofInt expr.dtype 0

/-- `x * 1 = x`, `truncdiv(x, 1) = x`, `floordiv(x, 1) = x` -/
def multiplyOne? (expr : Expr) : Option Expr := do
  let (op, lhs, rhs) ← expr.asBinary?
  guard ((op == .mul || op == .truncDiv || op == .floorDiv) && expr.dtype.isInteger && rhs.isInt 1)
  return lhs

/-- `x * 0 = 0` -/
def multiplyZero? (expr : Expr) : Option Expr := do
  let (_, rhs) ← expr.operands? .mul
  guard (expr.dtype.isInteger && rhs.isInt 0)
  return ofInt expr.dtype 0

/-- `truncmod(x, 1) = 0`, `floormod(x, 1) = 0` -/
def modOne? (expr : Expr) : Option Expr := do
  let (op, _, rhs) ← expr.asBinary?
  guard ((op == .truncMod || op == .floorMod) && expr.dtype.isInteger && rhs.isInt 1)
  return ofInt expr.dtype 0

/-- `truncdiv(x, x) = 1`, `floordiv(x, x) = 1`, where `x` cannot be zero -/
def divideSelf? (evidence : Evidence) (expr : Expr) : Option Expr := do
  let (op, lhs, rhs) ← expr.asBinary?
  guard ((op == .truncDiv || op == .floorDiv) && expr.dtype.isInteger && decide (lhs = rhs))
  guard !(evidence.bound rhs).contains 0
  return ofInt expr.dtype 1

/-- `min(x, x) = x`, `a && a = a`, `x <= x = true`, `x < x = false` -/
def sameOperands? (expr : Expr) : Option Expr := do
  let (op, lhs, rhs) ← expr.asBinary?
  guard (decide (lhs = rhs))
  if op == .min || op == .max || op.isLogical then return lhs
  else
    guard (lhs.dtype.isInteger && op.isComparison)
    return ofInt expr.dtype op.holdsOfEqual.toNat

/-- `true && a = a`, `false && a = false`, `true || a = true`, `false || a = a` -/
def logicalConstant? (expr : Expr) : Option Expr := do
  let (op, lhs, rhs) ← expr.asBinary?
  guard op.isLogical
  let (known, other) ←
    match lhs.asBool?, rhs.asBool? with
    | some value, _ => some (value, rhs)
    | none, some value => some (value, lhs)
    | none, none => none
  if known = (op == .and) then return other else return ofBool known

/-! ### The rules -/

/-- The rules of this file, in the order they are tried. -/
def rules : List Rule :=
  [.pure .foldConstants foldConstants?,
    .counted .constantToRight hasConstantOnLeft constantToRight?,
    .pure .logicalConstant logicalConstant?,
    .pure .addZero addZero?,
    .pure .subtractSelf subtractSelf?,
    .pure .multiplyOne multiplyOne?,
    .pure .multiplyZero multiplyZero?,
    .pure .modOne modOne?,
    .plain .divideSelf divideSelf?,
    .pure .sameOperands sameOperands?,
    .plain .knownValue knownValue?]

end IndexAlgebra.Reduction.Identities
