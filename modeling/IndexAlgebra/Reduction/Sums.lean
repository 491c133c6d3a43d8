/-
This file holds the rules for sums, differences and products of integers. They collect
constants, cancel equal terms, and put the constant of a sum last.
-/
import IndexAlgebra.Reduction.Rule

namespace IndexAlgebra.Reduction.Sums

open IndexAlgebra.Expr

/-! ### Terms -/

/-- The term and the coefficient of a product with a constant; every other expression has the
coefficient one. -/
def splitCoefficient (expr : Expr) : Expr × Int := (expr.withConst? .mul).getD (expr, 1)

/-- A sum or difference of a term and a constant, taken apart. -/
def splitConstant? (expr : Expr) : Option (BinaryOp × Expr × Expr) := do
  let (op, term, constant) ← expr.asBinary?
  guard ((op == .add || op == .sub) && constant.asInt?.isSome && !term.isConst)
  return (op, term, constant)

/-- The operator that undoes a sum or a difference. -/
def opposite (op : BinaryOp) : BinaryOp := if op = .add then .sub else .add

/-- The other operands of two nodes that share one. -/
def withoutShared? : Expr × Expr → Expr × Expr → Option (Expr × Expr)
  | (a, b), (c, d) =>
    if a = c then some (b, d)
    else if a = d then some (b, c)
    else if b = c then some (a, d)
    else if b = d then some (a, c)
    else none

/-- The other operand of a node with the operator, one of whose operands is the term. -/
def otherOperand? (expr : Expr) (op : BinaryOp) (term : Expr) : Option Expr := do
  let (a, b) ← expr.operands? op
  if a = term then some b else if b = term then some a else none

/-! ### Rules for sums and differences alike -/

/-- `x + -3 = x - 3`, `x - -3 = x + 3` -/
def negativeConstant? (op : BinaryOp) (expr : Expr) : Option Expr := do
  let (x, c) ← expr.withConst? op
  guard (c < 0)
  binaryConst? (opposite op) x (-c)

/-- `x * 2 + x * 3 = x * 5`, `x * 5 - x = x * 4` -/
def factorTerms? (op : BinaryOp) (expr : Expr) : Option Expr := do
  let (lhs, rhs) ← expr.operands? op
  let (x, a) := splitCoefficient lhs
  let (y, b) := splitCoefficient rhs
  guard (decide (x = y) && !(a == 1 && b == 1) && !x.isConst)
  binaryConst? .mul x (if op = .add then a + b else a - b)

/-- `select(c, a, b) + select(c, d, e) = select(c, a + d, b + e)`, and so for differences -/
def distributeSelect? (expr : Expr) : Option Expr := do
  let (op, lhs, rhs) ← expr.asBinary?
  guard (op == .add || op == .sub)
  match lhs, rhs with
  | .select _ cond a b, .select _ cond' d e =>
    guard (decide (cond = cond'))
    select? cond (← binary? op a d) (← binary? op b e)
  | _, _ => none

/-! ### Sums -/

/-- `(x + 1) + 2 = x + 3`, `(x - 1) + 2 = x + 1`, `(1 - x) + 2 = 3 - x` -/
def collectInSum? (expr : Expr) : Option Expr := do
  let (lhs, c) ← expr.withConst? .add
  let (op, a, b) ← lhs.asBinary?
  match op, a.asInt?, b.asInt? with
  | .add, _, some d => binaryConst? .add a (d + c)
  | .sub, _, some d => binaryConst? .add a (c - d)
  | .sub, some d, none => constBinary? .sub (d + c) b
  | _, _, _ => none

/-- `x + x = x * 2` -/
def addSelf? (expr : Expr) : Option Expr := do
  let (lhs, rhs) ← expr.operands? .add
  guard (decide (lhs = rhs))
  binaryConst? .mul lhs 2

/-- `(x - y) + y = x`, `y + (x - y) = x` -/
def cancelInSum? (expr : Expr) : Option Expr := do
  let (lhs, rhs) ← expr.operands? .add
  let minuend? (difference term : Expr) : Option Expr := do
    let (x, y) ← difference.operands? .sub
    guard (decide (y = term))
    return x
  (minuend? lhs rhs).or (minuend? rhs lhs)

/-- `x`, from `truncdiv(x, c) * c` and `truncmod(x, c)` or from their floored forms -/
def reassembled? (product remainder : Expr) : Option Expr := do
  let (quotient, c) ← product.operands? .mul
  let (division, x, divisor) ← quotient.asBinary?
  let modulo ←
    match division with
    | .truncDiv => some .truncMod
    | .floorDiv => some .floorMod
    | _ => none
  let (y, modulus) ← remainder.operands? modulo
  guard (decide (x = y ∧ divisor = c ∧ modulus = c))
  return x

/-- `floordiv(x, c) * c + floormod(x, c) = x`, and so for the truncated forms -/
def reassemble? (expr : Expr) : Option Expr := do
  let (lhs, rhs) ← expr.operands? .add
  (reassembled? lhs rhs).or (reassembled? rhs lhs)

/-- `min(x, y) + max(x, y) = x + y` -/
def minPlusMax? (expr : Expr) : Option Expr := do
  let (lhs, rhs) ← expr.operands? .add
  let ((a, b), (c, d)) ←
    match lhs.operands? .min, rhs.operands? .max with
    | some least, some greatest => some (least, greatest)
    | _, _ => (rhs.operands? .min).bind fun least => (lhs.operands? .max).map (least, ·)
  guard (decide (a = c ∧ b = d) || decide (a = d ∧ b = c))
  binary? .add a b

/-- `(x + 1) + y = (x + y) + 1`, `x + (y - 1) = (x + y) - 1` -/
def moveOutOfSum? (expr : Expr) : Option Expr := do
  let (lhs, rhs) ← expr.operands? .add
  guard (!lhs.isConst && !rhs.isConst)
  match splitConstant? lhs, splitConstant? rhs with
  | some (op, x, c), _ => binary? op (← binary? .add x rhs) c
  | none, some (op, y, c) => binary? op (← binary? .add lhs y) c
  | none, none => none

/-- The rules for sums of integers, in the order they are tried. -/
def sumRules : List Rule :=
  [.pure .negativeConstant (negativeConstant? .add),
    .pure .collectConstants collectInSum?,
    .pure .cancelTerms cancelInSum?,
    .pure .addSelf addSelf?,
    .pure .factorTerms (factorTerms? .add),
    .pure .reassembleDivMod reassemble?,
    .pure .minPlusMax minPlusMax?,
    .pure .distributeSelect distributeSelect?,
    .pure .moveConstantOut moveOutOfSum?]

/-! ### Differences -/

/-- `(x + 1) - 2 = x + -1`, `(1 - x) - 2 = -1 - x`, `1 - (x + 2) = -1 - x`,
`1 - (2 - x) = x + -1` -/
def collectInDifference? (expr : Expr) : Option Expr := do
  let (lhs, rhs) ← expr.operands? .sub
  match rhs.asInt? with
  | some c => do
    let (op, a, b) ← lhs.asBinary?
    match op, a.asInt?, b.asInt? with
    | .add, _, some d => binaryConst? .add a (d - c)
    | .sub, _, some d => binaryConst? .sub a (d + c)
    | .sub, some d, none => constBinary? .sub (d - c) b
    | _, _, _ => none
  | none => do
    let c ← lhs.asInt?
    let (op, a, b) ← rhs.asBinary?
    match op, a.asInt?, b.asInt? with
    | .add, _, some d => constBinary? .sub (c - d) a
    | .sub, some d, none => binaryConst? .add b (c - d)
    | _, _, _ => none

/-- `(x + y) - x = y`, `x - (x + y) = 0 - y`, `x - (x - y) = y`, `(x - y) - x = 0 - y`,
`(a + b) - (a + c) = b - c`, `(a - b) - (a - c) = c - b` -/
def cancelInDifference? (expr : Expr) : Option Expr := do
  let (lhs, rhs) ← expr.operands? .sub
  let negated? (term : Expr) : Option Expr := do binary? .sub (← constantLike? lhs 0) term
  match lhs.operands? .add, lhs.operands? .sub, rhs.operands? .add, rhs.operands? .sub with
  | some left, _, some right, _ => do
    let (x, y) ← withoutShared? left right
    binary? .sub x y
  | some _, _, none, _ => otherOperand? lhs .add rhs
  | none, some (a, b), _, right =>
    match right with
    | some (c, d) =>
      if a = c then binary? .sub d b else if a = rhs then negated? b else none
    | none => if a = rhs then negated? b else none
  | none, none, some _, _ => do negated? (← otherOperand? rhs .add lhs)
  | none, none, none, some (a, b) => if a = lhs then some b else none
  | none, none, none, none => none

/-- `x - min(x, y) = max(x - y, 0)`, `x - max(x, y) = min(x - y, 0)`,
`min(x, y) - x = min(y - x, 0)`, `max(x, y) - x = max(y - x, 0)` -/
def subtractMinMax? (expr : Expr) : Option Expr := do
  let (lhs, rhs) ← expr.operands? .sub
  let zero ← constantLike? lhs 0
  match otherOperand? rhs .min lhs, otherOperand? rhs .max lhs,
      otherOperand? lhs .min rhs, otherOperand? lhs .max rhs with
  | some y, _, _, _ => binary? .max (← binary? .sub lhs y) zero
  | none, some y, _, _ => binary? .min (← binary? .sub lhs y) zero
  | none, none, some y, _ => binary? .min (← binary? .sub y rhs) zero
  | none, none, none, some y => binary? .max (← binary? .sub y rhs) zero
  | none, none, none, none => none

/-- `(x + 1) - y = (x - y) + 1`, `x - (y + 1) = (x - y) - 1` -/
def moveOutOfDifference? (expr : Expr) : Option Expr := do
  let (lhs, rhs) ← expr.operands? .sub
  guard (!lhs.isConst && !rhs.isConst)
  match splitConstant? lhs, splitConstant? rhs with
  | some (op, x, c), _ => binary? op (← binary? .sub x rhs) c
  | none, some (op, y, c) => binary? (opposite op) (← binary? .sub lhs y) c
  | none, none => none

/-- The rules for differences of integers, in the order they are tried. -/
def differenceRules : List Rule :=
  [.pure .negativeConstant (negativeConstant? .sub),
    .pure .collectConstants collectInDifference?,
    .pure .cancelTerms cancelInDifference?,
    .pure .factorTerms (factorTerms? .sub),
    .pure .subtractMinMax subtractMinMax?,
    .pure .distributeSelect distributeSelect?,
    .pure .moveConstantOut moveOutOfDifference?]

/-! ### Products -/

/-- `(x * 2) * 3 = x * 6` -/
def collectInProduct? (expr : Expr) : Option Expr := do
  let (lhs, c) ← expr.withConst? .mul
  let (x, d) ← lhs.withConst? .mul
  binaryConst? .mul x (d * c)

/-- The product of a term of a sum and a constant. -/
def scaleTerm? (factor : Int) (term : Expr) : Option Expr :=
  match term.asInt? with
  | some value => constantLike? term (value * factor)
  | none => binaryConst? .mul term factor

/-- `(x + 1) * 3 = x * 3 + 3`, `(1 - x) * 3 = 3 - x * 3` -/
def distributeConstant? (expr : Expr) : Option Expr := do
  let (lhs, c) ← expr.withConst? .mul
  let (op, a, b) ← lhs.asBinary?
  guard ((op == .add || op == .sub) && a.isConst != b.isConst)
  binary? op (← scaleTerm? c a) (← scaleTerm? c b)

/-- The rules for products of integers, in the order they are tried. -/
def productRules : List Rule :=
  [.pure .collectConstants collectInProduct?,
    .pure .distributeConstant distributeConstant?]

end IndexAlgebra.Reduction.Sums
