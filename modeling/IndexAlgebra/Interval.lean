/-
This file holds symbolic intervals: closed intervals of integers whose ends are expressions. An
end that is missing is infinite.
-/
import IndexAlgebra.Expr.Equality
import IndexAlgebra.Expr.Text

namespace IndexAlgebra

/-- The integers between two ends, both included. -/
structure Interval where
  lower : Option Expr
  upper : Option Expr
  deriving DecidableEq, Inhabited

namespace Interval

/-- Every integer. -/
def everything : Interval := ⟨none, none⟩

/-- The integers from one expression to another. -/
def between (lower upper : Expr) : Interval := ⟨some lower, some upper⟩

/-- The value of a single expression. -/
def point (expr : Expr) : Interval := between expr expr

/-- The expression of both ends, if they are the same one. -/
def asPoint? (interval : Interval) : Option Expr :=
  match interval.lower, interval.upper with
  | some lower, some upper => if lower = upper then some lower else none
  | _, _ => none

/-- Neither end is known. -/
def isEverything (interval : Interval) : Bool :=
  interval.lower.isNone && interval.upper.isNone

/-! ### Intervals from intervals -/

/-- How two ends are combined by an operator. Ends that cannot be combined give no end. -/
abbrev Combine := BinaryOp → Expr → Expr → Option Expr

/-- The combination of two ends that are both known. -/
def ifBoth (combine : Combine) (op : BinaryOp) (left right : Option Expr) : Option Expr := do
  combine op (← left) (← right)

/-- The combination of two ends, or the one that is known. -/
def ifEither (combine : Combine) (op : BinaryOp) : Option Expr → Option Expr → Option Expr
  | some left, some right => combine op left right
  | left, right => left.or right

/-- The smallest interval around both. -/
def union (combine : Combine) (left right : Interval) : Interval :=
  ⟨ifBoth combine .min left.lower right.lower, ifBoth combine .max left.upper right.upper⟩

/-- The values in both intervals. -/
def intersect (combine : Combine) (left right : Interval) : Interval :=
  ⟨ifEither combine .max left.lower right.lower, ifEither combine .min left.upper right.upper⟩

/-- The smaller of a value of each interval. -/
def minimum (combine : Combine) (left right : Interval) : Interval :=
  ⟨ifBoth combine .min left.lower right.lower, ifEither combine .min left.upper right.upper⟩

/-- The greater of a value of each interval. -/
def maximum (combine : Combine) (left right : Interval) : Interval :=
  ⟨ifEither combine .max left.lower right.lower, ifBoth combine .max left.upper right.upper⟩

/-- The sum of a value of each interval. -/
def add (combine : Combine) (left right : Interval) : Interval :=
  ⟨ifBoth combine .add left.lower right.lower, ifBoth combine .add left.upper right.upper⟩

/-- The difference of a value of each interval. -/
def sub (combine : Combine) (left right : Interval) : Interval :=
  ⟨ifBoth combine .sub left.lower right.upper, ifBoth combine .sub left.upper right.lower⟩

/-- The interval with its ends swapped. -/
def swap (interval : Interval) : Interval := ⟨interval.upper, interval.lower⟩

/-- The interval with a function applied to each end. -/
def mapEnds (f : Expr → Option Expr) (interval : Interval) : Interval :=
  ⟨interval.lower.bind f, interval.upper.bind f⟩

def text (interval : Interval) : String :=
  "[" ++ (interval.lower.map Expr.text).getD "-inf" ++ ", " ++
    (interval.upper.map Expr.text).getD "+inf" ++ "]"

instance : ToString Interval := ⟨text⟩

end Interval

end IndexAlgebra
