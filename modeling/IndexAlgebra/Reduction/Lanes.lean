/-
This file holds the rules for vectors. They move an operator inside broadcasts and ramps, so that
the rules for scalars apply to what is left.
-/
import IndexAlgebra.Reduction.Rule

namespace IndexAlgebra.Reduction.Lanes

open IndexAlgebra.Expr

/-- `broadcast(a, n) + broadcast(b, n) = broadcast(a + b, n)`, and so for every operator -/
def broadcastOp? (expr : Expr) : Option Expr := do
  let (op, lhs, rhs) ← expr.asBinary?
  let (a, lanes) ← lhs.asBroadcast?
  let (b, _) ← rhs.asBroadcast?
  return mkBroadcast (← binary? op a b) lanes

/-- `ramp(a, s, n) + ramp(b, t, n) = ramp(a + b, s + t, n)`, and so for differences -/
def rampAddRamp? (expr : Expr) : Option Expr := do
  let (op, lhs, rhs) ← expr.asBinary?
  guard (op == .add || op == .sub)
  let (a, s, lanes) ← lhs.asRamp?
  let (b, t, _) ← rhs.asRamp?
  ramp? (← binary? op a b) (← binary? op s t) lanes

/-- `ramp(a, s, n) + broadcast(b, n) = ramp(a + b, s, n)`, and so for differences and with the
operands swapped -/
def rampAddBroadcast? (expr : Expr) : Option Expr := do
  let (op, lhs, rhs) ← expr.asBinary?
  guard (op == .add || op == .sub)
  match lhs.asRamp?, rhs.asBroadcast?, lhs.asBroadcast?, rhs.asRamp? with
  | some (a, s, lanes), some (b, _), _, _ => ramp? (← binary? op a b) s lanes
  | _, _, some (b, _), some (a, s, lanes) =>
    let stride ← if op = .add then some s else binary? .sub (ofInt s.dtype 0) s
    ramp? (← binary? op b a) stride lanes
  | _, _, _, _ => none

/-- `ramp(a, s, n) * broadcast(b, n) = ramp(a * b, s * b, n)`, and so with the operands swapped -/
def rampMulBroadcast? (expr : Expr) : Option Expr := do
  let (lhs, rhs) ← expr.operands? .mul
  let ((a, s, lanes), (b, _)) ←
    match lhs.asRamp?, rhs.asBroadcast? with
    | some left, some right => some (left, right)
    | _, _ => rhs.asRamp?.bind fun right => lhs.asBroadcast?.map (right, ·)
  ramp? (← binary? .mul a b) (← binary? .mul s b) lanes

/-- `ramp(a, 0, n) = broadcast(a, n)` -/
def rampZeroStride? (expr : Expr) : Option Expr := do
  let (base, stride, lanes) ← expr.asRamp?
  guard (stride.isInt 0)
  return mkBroadcast base lanes

/-- `!broadcast(a, n) = broadcast(!a, n)`, and so for conversions -/
def broadcastUnary? (expr : Expr) : Option Expr := do
  let scalar ←
    match expr with
    | .not _ (.broadcast _ value _) => not? value
    | .cast dtype (.broadcast _ value _) => some (.cast dtype.element value)
    | _ => none
  return mkBroadcast scalar expr.lanes

/-- The rules of this file, in the order they are tried on an expression of a vector type. -/
def rules : List Rule :=
  [.pure .broadcastOp broadcastOp?,
    .pure .rampAddRamp rampAddRamp?,
    .pure .rampAddBroadcast rampAddBroadcast?,
    .pure .rampMulBroadcast rampMulBroadcast?,
    .pure .rampZeroStride rampZeroStride?,
    .pure .broadcastUnary broadcastUnary?]

end IndexAlgebra.Reduction.Lanes
