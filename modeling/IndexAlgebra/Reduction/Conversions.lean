/-
This file holds the rules for conversions between types.
-/
import IndexAlgebra.Reduction.Rule

namespace IndexAlgebra.Reduction.Conversions

open IndexAlgebra.Expr

/-- The constant that a scalar constant is converted to. An integer type has to hold the value,
without its fraction. -/
def convert? (dtype : DataType) : Expr → Option Expr
  | .intConst _ value =>
    if dtype.isBool then some (ofBool (decide (value ≠ 0)))
    else if dtype.isFloat then some (ofFloat dtype (Binary64.ofInt value))
    else if dtype.fits value then some (ofInt dtype value)
    else none
  | .floatConst _ value =>
    if dtype.isFloat then some (ofFloat dtype value)
    else do
      guard dtype.isInteger
      constant? dtype (← value.truncate?)
  | .boolConst _ value => if dtype.isBool then none else some (ofInt dtype value.toNat)
  | _ => none

/-- `int64(3) = 3`, `float32(3) = 3.0`, `int32(2.7) = 2`, `bool(2) = true` -/
def foldCast? : Expr → Option Expr
  | .cast dtype value => if dtype.isScalar then convert? dtype value else none
  | _ => none

/-- `int32(x) = x`, where `x` is an `int32` already -/
def removeCast? : Expr → Option Expr
  | .cast dtype value => if value.dtype = dtype then some value else none
  | _ => none

/-- `int32(int64(x)) = int32(x)`, where the type in the middle can hold every value of `x`; the
result is `x` itself if it has the outer type already -/
def collapseCast? (evidence : Evidence) : Expr → Option Expr
  | .cast outer (.cast middle x) => do
    guard (outer.isInteger && middle.isInteger && x.dtype.isInteger)
    guard ((evidence.bound x).fits middle)
    return if x.dtype = outer then x else .cast outer x
  | _ => none

/-- The rules of this file, in the order they are tried. -/
def rules : List Rule :=
  [.pure .foldCast foldCast?,
    .pure .removeCast removeCast?,
    .plain .collapseCast collapseCast?]

end IndexAlgebra.Reduction.Conversions
