/-
This file holds the rules for quotients and remainders of integers by a constant. The floored
forms may be taken apart for every dividend. The truncated ones may be taken apart only when the
divisor is positive and no part of the dividend is negative, and those rules ask for bounds.
-/
import IndexAlgebra.Reduction.Rule

namespace IndexAlgebra.Reduction.Quotients

open IndexAlgebra.Expr

/-! ### Quotients and remainders by a constant -/

/-- A quotient or remainder by a constant other than zero. -/
structure Division where
  op : BinaryOp
  dividend : Expr
  divisor : Int

/-- The quotient is rounded down, or the remainder has the sign of the divisor. -/
def Division.isFloored (division : Division) : Bool :=
  division.op == .floorDiv || division.op == .floorMod

/-- The quotient by a constant other than zero. -/
def asQuotient? (expr : Expr) : Option Division := do
  let (op, dividend, divisor) ← expr.asBinary?
  guard (op == .truncDiv || op == .floorDiv)
  let divisor ← divisor.asInt?
  guard (divisor ≠ 0)
  return ⟨op, dividend, divisor⟩

/-- The remainder by a constant other than zero. -/
def asRemainder? (expr : Expr) : Option Division := do
  let (op, dividend, divisor) ← expr.asBinary?
  guard (op == .truncMod || op == .floorMod)
  let divisor ← divisor.asInt?
  guard (divisor ≠ 0)
  return ⟨op, dividend, divisor⟩

/-- The bounds show that neither expression is negative. -/
def neitherNegative (evidence : Evidence) (first second : Expr) : Bool :=
  (evidence.bound first).isNonNegative && (evidence.bound second).isNonNegative

/-- A sum of which one term is a multiple of the divisor: that term, the other term, and the
factor and the coefficient of the first, which is the left one if both are multiples. -/
def splitMultiple? (divisor : Int) (sum : Expr) : Option (Expr × Expr × Expr × Int) := do
  let (a, b) ← sum.operands? .add
  let multiple? (term rest : Expr) : Option (Expr × Expr × Expr × Int) := do
    let (factor, coefficient) ← term.withConst? .mul
    guard (Word.isMultiple coefficient divisor)
    return (term, rest, factor, coefficient)
  (multiple? a b).or (multiple? b a)

/-! ### Quotients -/

/-- `floordiv(x * 6, 3) = x * 2`, `floordiv(x * 2, 6) = floordiv(x, 3)` -/
def divideProduct? (expr : Expr) : Option Expr := do
  let ⟨op, dividend, divisor⟩ ← asQuotient? expr
  let (x, factor) ← dividend.withConst? .mul
  if Word.isMultiple factor divisor then binaryConst? .mul x (factor.tdiv divisor)
  else
    guard (0 < factor ∧ 0 < divisor ∧ divisor.tmod factor = 0)
    binaryConst? op x (divisor.tdiv factor)

/-- `floordiv(x + 8, 4) = floordiv(x, 4) + 2`, `floordiv(x - 8, 4) = floordiv(x, 4) - 2` -/
def splitOffset? (evidence : Evidence) (expr : Expr) : Option Expr := do
  let division@⟨op, dividend, divisor⟩ ← asQuotient? expr
  let (sumOp, x, offset) ← dividend.asBinary?
  let offset ← offset.asInt?
  guard ((sumOp == .add || sumOp == .sub) && Word.isMultiple offset divisor)
  guard (division.isFloored || neitherNegative evidence x dividend)
  let quotient ← binaryConst? op x divisor
  binary? sumOp quotient (← constantLike? x (offset.tdiv divisor))

/-- `floordiv(x * 8 + y, 4) = x * 2 + floordiv(y, 4)` -/
def splitTerm? (evidence : Evidence) (expr : Expr) : Option Expr := do
  let division@⟨op, dividend, divisor⟩ ← asQuotient? expr
  let (product, rest, x, coefficient) ← splitMultiple? divisor dividend
  guard (division.isFloored || neitherNegative evidence product rest)
  let scaled ← binaryConst? .mul x (coefficient.tdiv divisor)
  binary? .add scaled (← binaryConst? op rest divisor)

/-- A dividend of two parts, one of which is a multiple of the divisor, is taken apart. -/
def splitDividend? (evidence : Evidence) (expr : Expr) : Option Expr := do
  let division ← asQuotient? expr
  guard (division.isFloored || 0 ≤ division.divisor)
  let (_, _, right) ← division.dividend.asBinary?
  if right.asInt?.isSome then splitOffset? evidence expr else splitTerm? evidence expr

/-- `floordiv(floordiv(x, 2), 3) = floordiv(x, 6)`, and so for truncated quotients -/
def nestedQuotient? (expr : Expr) : Option Expr := do
  let ⟨op, dividend, divisor⟩ ← asQuotient? expr
  let (x, inner) ← dividend.withConst? op
  guard (0 < inner ∧ 0 < divisor)
  binaryConst? op x (inner * divisor)

/-- The rules for quotients of integers, in the order they are tried. -/
def quotientRules : List Rule :=
  [.pure .divideExact divideProduct?,
    .plain .splitDivisible splitDividend?,
    .pure .nestedDivision nestedQuotient?]

/-! ### Remainders -/

/-- Every value between the two is its own remainder by the divisor. -/
def isReduced (floored : Bool) (divisor least greatest : Int) : Bool :=
  if !floored then decide (-(divisor.natAbs : Int) < least ∧ greatest < divisor.natAbs)
  else if 0 < divisor then decide (0 ≤ least ∧ greatest < divisor)
  else decide (divisor < least ∧ greatest ≤ 0)

/-- `floormod(x, 8) = x` where `0 <= x < 8`, `truncmod(x, 8) = x` where `-8 < x < 8` -/
def modInRange? (evidence : Evidence) (expr : Expr) : Option Expr := do
  let division ← asRemainder? expr
  let bound := evidence.bound division.dividend
  guard (isReduced division.isFloored division.divisor (← bound.lower.finite?)
    (← bound.upper.finite?))
  return division.dividend

/-- `floormod(x * 8, 4) = 0` -/
def remainderOfProduct? (expr : Expr) : Option Expr := do
  let ⟨_, dividend, divisor⟩ ← asRemainder? expr
  let (_, factor) ← dividend.withConst? .mul
  guard (Word.isMultiple factor divisor)
  constantLike? expr 0

/-- `floormod(x * 8 + y, 4) = floormod(y, 4)` -/
def dropMultiple? (evidence : Evidence) (expr : Expr) : Option Expr := do
  let division@⟨op, dividend, divisor⟩ ← asRemainder? expr
  guard (division.isFloored || 0 ≤ divisor)
  let (product, rest, _) ← splitMultiple? divisor dividend
  guard (division.isFloored || neitherNegative evidence product rest)
  binaryConst? op rest divisor

/-- `floormod(x, 4) = 1` where `x` is one more than a multiple of four. For `truncmod` no value
of `x` may be negative, unless the remainder is zero. -/
def modularRemainder? (evidence : Evidence) (expr : Expr) : Option Expr := do
  let division@⟨_, dividend, divisor⟩ ← asRemainder? expr
  guard (0 < divisor)
  let congruence := evidence.congruence dividend
  guard (congruence.modulus.tmod divisor = 0)
  let remainder := congruence.base.fmod divisor
  guard (division.isFloored || remainder == 0 || (evidence.bound dividend).isNonNegative)
  constantLike? expr remainder

/-- `floormod(floormod(x, 8), 4) = floormod(x, 4)`, and so for truncated remainders -/
def nestedRemainder? (expr : Expr) : Option Expr := do
  let ⟨op, dividend, divisor⟩ ← asRemainder? expr
  let (x, inner) ← dividend.withConst? op
  guard (0 < inner ∧ 0 < divisor ∧ inner.tmod divisor = 0)
  binaryConst? op x divisor

/-- `floormod(x + 10, 4) = floormod(x + 2, 4)`, `floormod(x - 1, 4) = floormod(x + 3, 4)`,
`truncmod(x + 8, 4) = truncmod(x, 4)` where neither dividend is negative -/
def reduceOffset? (evidence : Evidence) (expr : Expr) : Option Expr := do
  let division@⟨op, dividend, divisor⟩ ← asRemainder? expr
  let (sumOp, x, offset) ← dividend.asBinary?
  guard (sumOp == .add || sumOp == .sub)
  let offset := (if sumOp = .add then 1 else -1) * (← offset.asInt?)
  if division.isFloored then
    let reduced := offset.fmod divisor
    guard (reduced ≠ offset)
    let dividend ← if reduced = 0 then some x else binaryConst? .add x reduced
    binary? op dividend (← constantLike? x divisor)
  else
    guard (0 < divisor ∧ offset.tmod divisor = 0)
    guard (neitherNegative evidence x dividend)
    binaryConst? op x divisor

/-- The rules for remainders of integers, in the order they are tried. -/
def remainderRules : List Rule :=
  [.plain .modInRange modInRange?,
    .pure .divideExact remainderOfProduct?,
    .plain .splitDivisible dropMultiple?,
    .plain .modularRemainder modularRemainder?,
    .pure .nestedDivision nestedRemainder?,
    .plain .reduceOffset reduceOffset?]

end IndexAlgebra.Reduction.Quotients
