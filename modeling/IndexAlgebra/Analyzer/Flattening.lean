/-
This file flattens sums of integers. An expression becomes a sum form, in which like terms meet, and
the sum form becomes an expression again: `x * 3 - 4 * x + 1` is `1 - x`.

A quotient or remainder by a constant becomes an atom after the multiples of the divisor are
taken out of its dividend. For the floored forms they always are. For the truncated forms both
parts must be known not to be negative. A quotient and the remainder that belongs to it are put
together again. A comparison has its positive terms on the left, its negative ones on the right,
and no common factor.

Fuel bounds the depth of the recursion. Flattening has no result when it is out of fuel; that is
told apart from a sum that leaves the range of words, which stays an atom.
-/
import IndexAlgebra.Reduction.Simplifier
import IndexAlgebra.SumForm

namespace IndexAlgebra

namespace SumForm

/-! ### Division by a constant -/

/-- How a sum is divided by a divisor, if it can be. -/
abbrev Divide := SumForm → Int → Option SumForm

/-- The quotient, or the remainder zero, of a sum that can be divided. -/
def splitExact? (divide : Divide) (kind : Split) (divisor : Int) (sum : SumForm) : Option SumForm :=
  (divide sum divisor).map fun quotient =>
    if kind.isQuotient then quotient else ofInt sum.dtype 0

/-- The quotient or remainder of a constant, if it is a word that the type can hold. -/
def splitConstant? (kind : Split) (divisor : Int) (dtype : DataType) (value : Int) :
    Option SumForm := do
  let result ← Word.ofInt? (kind.apply value divisor)
  if dtype.fits result then return ofInt dtype result else none

/-- The quotient or remainder of a sum that is not taken apart. -/
def splitAtom? (kind : Split) (divisor : Int) (sum : SumForm) : Option SumForm :=
  sum.expr?.map fun dividend => ofAtom sum.dtype (.split dividend divisor kind)

/-- The multiples of a divisor and the rest of a sum, where the multiple of the divisor in the
constant that leaves a floored remainder joins the multiples. -/
def peelFloored? (divisor : Int) (sum : SumForm) : Option (SumForm × SumForm) := do
  let (multiples, rest) := sum.partition divisor
  let peeled ← Word.ofInt? (rest.constant.fdiv divisor * divisor)
  let left ← Word.ofInt? (rest.constant.fmod divisor)
  return ({ multiples with constant := peeled }, { rest with constant := left })

/-- The multiples of a positive divisor and the rest of a sum, where the multiple of the divisor
in a constant that is not negative joins the multiples. -/
def peelTruncated (divisor : Int) (sum : SumForm) : SumForm × SumForm :=
  let (multiples, rest) := sum.partition divisor
  if 0 ≤ rest.constant then
    let left := rest.constant.tmod divisor
    ({ multiples with constant := rest.constant - left }, { rest with constant := left })
  else (multiples, rest)

/-- The bound shows that the sum is not negative. -/
def isNonNegative (bound : Expr → Bound) (sum : SumForm) : Bool :=
  match sum.expr? with
  | some expr => (bound expr).isNonNegative
  | none => false

/-- The multiples of a divisor and the rest of a sum, if they may be divided apart. -/
def peel? (bound : Expr → Bound) (kind : Split) (divisor : Int) (sum : SumForm) :
    Option (SumForm × SumForm) :=
  if kind.isFloored then sum.peelFloored? divisor
  else
    let (multiples, rest) := sum.peelTruncated divisor
    if 0 ≤ divisor && multiples.isNonNegative bound && rest.isNonNegative bound then
      some (multiples, rest)
    else none

/-- The quotient or remainder of a sum of which nothing more can be taken out. -/
def splitRest? (divide : Divide) (kind : Split) (divisor : Int) (rest : SumForm) : Option SumForm :=
  match rest.asConst? with
  | some value =>
    (rest.splitExact? divide kind divisor).or (splitConstant? kind divisor rest.dtype value)
  | none => rest.splitAtom? kind divisor

/-- The quotient or remainder of a sum by a constant other than zero. -/
def split? (divide : Divide) (bound : Expr → Bound) (kind : Split) (divisor : Int)
    (sum : SumForm) : Option SumForm :=
  match sum.splitExact? divide kind divisor, sum.asConst? with
  | some result, _ => some result
  | none, some value => splitConstant? kind divisor sum.dtype value
  | none, none =>
    match sum.peel? bound kind divisor with
    | some (multiples, rest) => do
      let remainder ← rest.splitRest? divide kind divisor
      if kind.isQuotient then (← divide multiples divisor).add? remainder
      else return remainder
    | none => if kind.isFloored then none else sum.splitAtom? kind divisor

/-! ### Quotients and remainders that belong together -/

/-- A quotient among the terms of a sum and its remainder, whose coefficients show that together
they are a multiple of the dividend. -/
structure Pair where
  quotient : Product
  remainder : Product
  coefficient : Int
  dividend : Expr

/-- The pair of a quotient among the terms of a sum. -/
def pairOf? (sum : SumForm) : Product × Int → Option Pair
  | ([.split dividend divisor kind], coefficient) => do
    let remainder := [Atom.split dividend divisor (← kind.remainder?)]
    let factor ← sum.coefficient? remainder
    guard (Word.mul? factor divisor = some coefficient)
    return ⟨[.split dividend divisor kind], remainder, factor, dividend⟩
  | _ => none

/-- The first pair among the terms of a sum. -/
def findPair? (sum : SumForm) : Option Pair := sum.terms.findSome? sum.pairOf?

/-- The sum without the terms of a pair. -/
def withoutPair (sum : SumForm) (pair : Pair) : SumForm :=
  { sum with
    terms := sum.terms.filter fun term =>
      term.1 ≠ pair.quotient && term.1 ≠ pair.remainder }

/-! ### Comparisons -/

/-- The comparison of a difference with zero by `<`, `==` or `!=`, for any comparison. -/
def normalizeComparison? (op : BinaryOp) (difference : SumForm) :
    Option (BinaryOp × SumForm) := do
  let minusOne := ofInt difference.dtype (-1)
  match op with
  | .lt => return (.lt, difference)
  | .le => return (.lt, ← difference.add? minusOne)
  | .gt => return (.lt, ← difference.scale? (-1))
  | .ge => return (.lt, ← (← difference.scale? (-1)).add? minusOne)
  | .eq | .ne => return (op, difference)
  | _ => none

/-- The truth value of the comparison of a constant with zero. -/
def compareConstant (op : BinaryOp) (value : Int) : Bool :=
  match op with
  | .lt => decide (value < 0)
  | .eq => value == 0
  | _ => value != 0

/-- The comparison with zero after the common factor of the coefficients is divided out. A
constant that the factor does not divide is rounded down under `<`, and it decides the other
comparisons: the sum is not zero. -/
def divideContent? (divide : Divide) (op : BinaryOp) (sum : SumForm) :
    Option (Except Bool SumForm) :=
  let factor := sum.content
  if factor ≤ 1 then some (.ok sum)
  else do
    let reduced ← divide { sum with constant := 0 } factor
    if op = .lt then return .ok { reduced with constant := sum.constant.fdiv factor }
    else if sum.constant.tmod factor ≠ 0 then return .error (op == .ne)
    else return .ok { reduced with constant := sum.constant.tdiv factor }

/-- The comparison of the positive terms with the negative ones and the constant. -/
def comparisonExpr? (op : BinaryOp) (sum : SumForm) : Option Expr := do
  let (positive, negative) := sum.terms.partition fun term => 0 < term.2
  let negated ← negative.mapM fun (product, coefficient) =>
    (Word.neg? coefficient).map (product, ·)
  let left : SumForm := ⟨sum.dtype, positive, 0⟩
  let right : SumForm := ⟨sum.dtype, negated, ← Word.neg? sum.constant⟩
  Expr.binary? op (← left.expr?) (← right.expr?)

/-- The comparison of the difference of two operands with zero as an expression. -/
def comparison? (divide : Divide) (op : BinaryOp) (difference : SumForm) : Option Expr := do
  let (op, sum) ← normalizeComparison? op difference
  match sum.asConst? with
  | some value => return .ofBool (compareConstant op value)
  | none =>
    match ← sum.divideContent? divide op with
    | .error truth => return .ofBool truth
    | .ok sum => sum.comparisonExpr? op

end SumForm

namespace Flattening

/-! ### Flattening -/

/-- What flattening depends on. -/
structure Setting where
  bound : Expr → Bound
  divide : SumForm.Divide
  maxTerms : Nat

/-- The node compares scalar integers. -/
def isScalarComparison (op : BinaryOp) (lhs : Expr) : Bool :=
  op.isComparison && lhs.dtype.isInteger && lhs.dtype.isScalar

/-- The node is a sum, a product, a quotient or a remainder of scalar integers. -/
def isScalarSum (dtype : DataType) (op : BinaryOp) : Bool :=
  dtype.isInteger && dtype.isScalar && (op == .add || op == .sub || op == .mul || op.isDivision)

mutual

/-- The expression with every sum and comparison of scalar integers in it flattened and rebuilt.
One that cannot be rebuilt has only its operands treated. -/
def flatten? (setting : Setting) : Nat → Expr → Option Expr
  | 0, _ => none
  | fuel + 1, expr =>
    match expr with
    | .binary dtype op lhs rhs =>
      if isScalarComparison op lhs then do
        let left ← sumOf? setting fuel lhs
        let right ← sumOf? setting fuel rhs
        match (left.sub? right).bind (SumForm.comparison? setting.divide op) with
        | some rebuilt => return rebuilt
        | none => flattenChildren? setting fuel expr
      else if isScalarSum dtype op then do
        match (← sumOf? setting fuel expr).expr? with
        | some rebuilt => return rebuilt
        | none => flattenChildren? setting fuel expr
      else flattenChildren? setting fuel expr
    | _ => flattenChildren? setting fuel expr

/-- The node with its operands flattened. -/
def flattenChildren? (setting : Setting) : Nat → Expr → Option Expr
  | 0, _ => none
  | fuel + 1, expr => expr.withChildren <$> expr.children.mapM (flatten? setting fuel)

/-- The sum form of an expression. What is no sum is an atom with its operands flattened, and so
is a sum that leaves the range of words or grows too large. -/
def sumOf? (setting : Setting) : Nat → Expr → Option SumForm
  | 0, _ => none
  | fuel + 1, expr =>
    match expr with
    | .intConst dtype value =>
      if dtype.isInteger && dtype.isScalar then some (.ofInt dtype value)
      else some (.ofLeaf expr)
    | .binary dtype op lhs rhs =>
      if dtype.isInteger && dtype.isScalar then do
        match ← binarySum? setting fuel op lhs rhs with
        | some sum =>
          match ← recombine? setting fuel sum with
          | some sum => return sum
          | none => (flattenChildren? setting fuel expr).map .ofLeaf
        | none => (flattenChildren? setting fuel expr).map .ofLeaf
      else (flattenChildren? setting fuel expr).map .ofLeaf
    | _ => (flattenChildren? setting fuel expr).map .ofLeaf

/-- The sum form of a binary node of scalar integers, if it has one. -/
def binarySum? (setting : Setting) : Nat → BinaryOp → Expr → Expr → Option (Option SumForm)
  | 0, _, _, _ => none
  | fuel + 1, op, lhs, rhs =>
    match op with
    | .add => do return (← sumOf? setting fuel lhs).add? (← sumOf? setting fuel rhs)
    | .sub => do return (← sumOf? setting fuel lhs).sub? (← sumOf? setting fuel rhs)
    | .mul => do
      return (← sumOf? setting fuel lhs).mul? (← sumOf? setting fuel rhs) setting.maxTerms
    | _ =>
      match Split.ofOp? op, rhs.asInt? with
      | some kind, some divisor =>
        if divisor = 0 then pure none
        else do return (← sumOf? setting fuel lhs).split? setting.divide setting.bound kind divisor
      | _, _ => pure none

/-- The sum with every pair of a quotient and its remainder replaced by the sum form of their
dividend. -/
def recombine? (setting : Setting) : Nat → SumForm → Option (Option SumForm)
  | 0, _ => none
  | fuel + 1, sum =>
    match sum.findPair? with
    | none => pure (some sum)
    | some pair => do
      let dividend ← sumOf? setting fuel pair.dividend
      match (dividend.scale? pair.coefficient).bind (sum.withoutPair pair).add? with
      | some sum => recombine? setting fuel sum
      | none => pure none

end

end Flattening

end IndexAlgebra
