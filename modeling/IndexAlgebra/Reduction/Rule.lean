/-
This file says what a reduction rule is and what it may consult, and holds the small readers
and builders that rules are written with. A rule that cannot establish what it needs does not
apply.
-/
import IndexAlgebra.Bound
import IndexAlgebra.Congruence
import IndexAlgebra.Expr.Build
import IndexAlgebra.Reduction.Relation
import IndexAlgebra.Reduction.Step

namespace IndexAlgebra

/-- What a rule may consult: the bound and the congruence class of an expression, the range that
a condition restricts an integer to, and the conditions that are known to be true. -/
structure Evidence where
  bound : Expr → Bound
  congruence : Expr → Congruence
  range : Expr → Option (Expr × Bound)
  truths : List Expr

/-- A reduction rule. -/
inductive Rule where
  /-- A rule that needs nothing but the evidence. -/
  | plain (step : Step) (apply : Evidence → Expr → Option Expr)
  /-- A rule that is counted as soon as its form fits, and that applies if what it builds has a
  type. -/
  | counted (step : Step) (fits : Expr → Bool) (apply : Expr → Option Expr)
  /-- A rule that needs the relation of two expressions. -/
  | comparing (step : Step) (operands : Expr → Option (Expr × Expr))
    (conclude : Relation → Expr → Option Expr)

/-- The rule that does not consult anything. -/
def Rule.pure (step : Step) (apply : Expr → Option Expr) : Rule :=
  plain step fun _ expr => apply expr

/-- The kind of a rule. -/
def Rule.step : Rule → Step
  | plain step _ | counted step _ _ | comparing step _ _ => step

namespace Expr

/-! ### Reading -/

/-- The left operand and the right one of a binary node whose right operand is an integer
constant. -/
def withConst? (expr : Expr) (op : BinaryOp) : Option (Expr × Int) := do
  let (lhs, rhs) ← expr.operands? op
  return (lhs, ← rhs.asInt?)

/-- The value and the count of lanes of a broadcast. -/
def asBroadcast? : Expr → Option (Expr × Nat)
  | broadcast _ value lanes => some (value, lanes)
  | _ => none

/-- The base, the stride and the count of lanes of a ramp. -/
def asRamp? : Expr → Option (Expr × Expr × Nat)
  | ramp _ base stride lanes => some (base, stride, lanes)
  | _ => none

/-- The operand of a negation. -/
def asNot? : Expr → Option Expr
  | not _ value => some value
  | _ => none

/-! ### Building -/

/-- The integer constant of an integer type, if the type can hold the value. -/
def constant? (dtype : DataType) (value : Int) : Option Expr :=
  if Word.Fits value ∧ dtype.isInteger ∧ dtype.fits value then some (ofInt dtype value) else none

/-- The integer constant of the type of another expression. -/
def constantLike? (like : Expr) (value : Int) : Option Expr := constant? like.dtype value

/-- A binary node whose right operand is a constant of the type of the left one. -/
def binaryConst? (op : BinaryOp) (lhs : Expr) (value : Int) : Option Expr := do
  binary? op lhs (← constantLike? lhs value)

/-- A binary node whose left operand is a constant of the type of the right one. -/
def constBinary? (op : BinaryOp) (value : Int) (rhs : Expr) : Option Expr := do
  binary? op (← constantLike? rhs value) rhs

/-- The negation of a truth value. -/
def not? (value : Expr) : Option Expr := (mkNot value).toOption

/-- A choice, if its parts have types that fit. -/
def select? (cond onTrue onFalse : Expr) : Option Expr := (mkSelect cond onTrue onFalse).toOption

/-- A ramp, if its parts have types that fit. -/
def ramp? (base stride : Expr) (lanes : Nat) : Option Expr := (mkRamp base stride lanes).toOption

end Expr

end IndexAlgebra
