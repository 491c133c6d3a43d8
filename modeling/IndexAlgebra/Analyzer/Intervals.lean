/-
This file infers the symbolic interval of an expression, where some variables range over given
intervals and every other variable is fixed but unknown. With `x` in `[0, 10]` the expression
`x + y` lies in `[y, y + 10]`.
-/
import IndexAlgebra.Reduction.Simplifier

namespace IndexAlgebra

/-! ### Shifts, factors and divisors -/

/-- No value is negative. This is not said of a bound that lies below zero and is empty. -/
def Bound.excludesNegative (bound : Bound) : Bool :=
  bound.isPositive || bound.isNonNegative && !bound.isNegative

/-- Both types hold integers of one kind, and the second is at least as wide as the first. -/
def DataType.widensTo (source target : DataType) : Bool :=
  source.isInteger && target.isInteger && source.code == target.code && source.bits ≤ target.bits

namespace Interval

/-- How an interval is moved by a factor or a divisor with a known sign. -/
inductive Direction where
  /-- The order of the ends is kept. -/
  | kept
  /-- The ends change places. -/
  | turned
  deriving DecidableEq, Repr

/-- The direction of a product with a factor in the bound, or of a quotient by a divisor in it,
which must not be zero. -/
def Direction.of? (bound : Bound) (isQuotient : Bool) : Option Direction :=
  if bound.isPositive then some .kept
  else if bound.isNegative then some .turned
  else if isQuotient then none
  else if bound.isNonNegative then some .kept
  else if bound.isNonPositive then some .turned
  else none

/-- The offsets of the lanes of a ramp from its base, for a constant stride. Without them when
the stride is no constant or its type cannot hold the last offset. -/
def ofStride? (stride : Expr) (lanes : Nat) : Option Interval := do
  let span ← Word.mul? (← stride.asInt?) (lanes - 1)
  guard (stride.dtype.fits span)
  let zero := Expr.ofInt stride.dtype 0
  let last := Expr.ofInt stride.dtype span
  return if 0 ≤ span then between zero last else between last zero

/-- The interval of a converted value. Integers that become wider integers of the same kind keep
their values; nothing is known of other conversions. -/
def convert (source target : DataType) (interval : Interval) : Interval :=
  if source.widensTo target then interval.mapEnds fun expr => some (.cast target.element expr)
  else everything

/-! ### Inference -/

/-- The analyses that the inference of intervals asks about ends. -/
structure Analyses where
  /-- An end in a simpler form. -/
  reduce : Expr → Expr
  /-- The integers that an end can be. -/
  bound : Expr → Bound

namespace Analyses

/-- The simplified node, if its operands have one type. -/
def combine (analyses : Analyses) : Combine :=
  fun op lhs rhs => (Expr.binary? op lhs rhs).map analyses.reduce

/-- The interval of a single simplified node. -/
def single (analyses : Analyses) (op : BinaryOp) (lhs rhs : Expr) : Interval :=
  match analyses.combine op lhs rhs with
  | some expr => .point expr
  | none => .everything

/-- The products of the values of an interval with one factor, or their quotients by it. -/
def scale (analyses : Analyses) (op : BinaryOp) (interval : Interval) (factor : Expr) : Interval :=
  match interval.asPoint? with
  | some value => analyses.single op value factor
  | none =>
    let scaled (_ : Unit) := interval.mapEnds (analyses.combine op · factor)
    match Direction.of? (analyses.bound factor) (op != .mul) with
    | some .kept => scaled ()
    | some .turned => (scaled ()).swap
    | none => .everything

/-- Both ends have the same quotient by the divisor. -/
def haveSameQuotient (analyses : Analyses) (division : BinaryOp) (lower upper divisor : Expr) :
    Bool :=
  let difference? := do
    let greatest ← Expr.binary? division upper divisor
    let least ← Expr.binary? division lower divisor
    analyses.combine .sub greatest least
  match difference? with
  | some difference => difference.isInt 0
  | none => false

/-- No remainder of a value of the interval is negative. -/
def remainsNonNegative (analyses : Analyses) (op : BinaryOp) (interval : Interval) : Bool :=
  op == .floorMod ||
    match interval.lower with
    | some lower => (analyses.bound lower).excludesNegative
    | none => false

/-- All values of the interval have the same quotient by the divisor. -/
def staysInPeriod (analyses : Analyses) (op : BinaryOp) (interval : Interval) (divisor : Expr) :
    Bool :=
  let division := if op == .floorMod then .floorDiv else .truncDiv
  match interval.lower, interval.upper with
  | some lower, some upper => analyses.haveSameQuotient division lower upper divisor
  | _, _ => false

/-- The remainders of the values of an interval by one divisor. While the quotient stays the
same the remainder grows with the dividend; otherwise it is only known to be smaller than the
divisor. -/
def remainder (analyses : Analyses) (op : BinaryOp) (interval : Interval) (divisor : Expr) :
    Interval :=
  match interval.asPoint? with
  | some value => analyses.single op value divisor
  | none =>
    if !(analyses.bound divisor).isPositive then .everything
    else
      let notNegative := analyses.remainsNonNegative op interval
      if notNegative && analyses.staysInPeriod op interval divisor then
        interval.mapEnds (analyses.combine op · divisor)
      else
        match analyses.combine .sub divisor (.ofInt divisor.dtype 1) with
        | none => .everything
        | some top =>
          let zero := Expr.ofInt divisor.dtype 0
          if notNegative then .between zero top else ⟨analyses.combine .sub zero top, some top⟩

/-- The interval of a binary node. -/
def binary (analyses : Analyses) (op : BinaryOp) (left right : Interval) : Interval :=
  match op with
  | .add => left.add analyses.combine right
  | .sub => left.sub analyses.combine right
  | .mul =>
    match right.asPoint?, left.asPoint? with
    | some factor, _ => analyses.scale op left factor
    | none, some factor => analyses.scale op right factor
    | none, none => .everything
  | .truncDiv | .floorDiv =>
    match right.asPoint? with
    | some divisor => analyses.scale op left divisor
    | none => .everything
  | .truncMod | .floorMod =>
    match right.asPoint? with
    | some divisor => analyses.remainder op left divisor
    | none => .everything
  | .min => left.minimum analyses.combine right
  | .max => left.maximum analyses.combine right
  | .eq | .ne | .lt | .le | .gt | .ge | .and | .or => .everything

/-- The expression is a scalar that mentions no variable with an interval of its own. -/
def isFixed (domain : Table Interval) (expr : Expr) : Bool :=
  expr.dtype.isScalar && !expr.mentions.any fun name => (domain.find? name).isSome

/-- The interval of an expression, where the variables of the domain range over their intervals.
All lanes of a vector lie in the interval of the vector. -/
def infer (analyses : Analyses) (domain : Table Interval) : Expr → Interval
  | .broadcast _ value _ => infer analyses domain value
  | expr@(.var _ name) =>
    if isFixed domain expr then .point expr else (domain.find? name).getD (.point expr)
  | expr@(.binary _ op lhs rhs) =>
    if isFixed domain expr then .point expr
    else analyses.binary op (infer analyses domain lhs) (infer analyses domain rhs)
  | expr@(.select _ _ onTrue onFalse) =>
    if isFixed domain expr then .point expr
    else (infer analyses domain onTrue).union analyses.combine (infer analyses domain onFalse)
  | expr@(.cast dtype value) =>
    if isFixed domain expr then .point expr
    else (infer analyses domain value).convert value.dtype dtype
  | expr@(.ramp _ base stride lanes) =>
    if isFixed domain expr then .point expr
    else
      match ofStride? stride lanes with
      | some offsets => (infer analyses domain base).add analyses.combine offsets
      | none => .everything
  | expr@(.letIn _ name value body) =>
    if isFixed domain expr then .point expr
    else infer analyses (domain.insert name (infer analyses domain value)) body
  | expr => if isFixed domain expr then .point expr else .everything

end Analyses

end Interval

namespace Analyzer

/-- The analyses of the analyzer. -/
def analyses (analyzer : Analyzer) : Interval.Analyses :=
  ⟨analyzer.reduce, analyzer.known.inferBound⟩

/-- The simplified node, if its operands have one type. -/
def combine (analyzer : Analyzer) : Interval.Combine := analyzer.analyses.combine

/-- The symbolic interval of an expression over a domain. -/
def inferInterval (analyzer : Analyzer) (domain : Table Interval) (expr : Expr) : Interval :=
  analyzer.analyses.infer domain (analyzer.known.isolate expr)

end Analyzer

end IndexAlgebra
