/-
This file names the steps of the simplifier. Each step stands for the rules of one kind, and
the examples beside it show what they do.
-/

namespace IndexAlgebra

/-- The kind of a reduction rule. -/
inductive Step where
  /-- For instance `1 + 2 = 3` and `3 < 4 = true`. -/
  | foldConstants
  /-- For instance `1 + x = x + 1` and `2 == x = x == 2`. -/
  | constantToRight
  /-- For instance `x = 3` if `x` is known to lie in `[3, 3]`. -/
  | knownValue
  /-- For instance `x + 0 = x` and `x - 0 = x`. -/
  | addZero
  /-- For instance `x - x = 0`. -/
  | subtractSelf
  /-- For instance `x * 1 = x` and `floordiv(x, 1) = x`. -/
  | multiplyOne
  /-- For instance `x * 0 = 0`. -/
  | multiplyZero
  /-- For instance `floormod(x, 1) = 0`. -/
  | modOne
  /-- For instance `floordiv(x, x) = 1` if `x` is never zero. -/
  | divideSelf
  /-- For instance `min(x, x) = x`, `x <= x = true` and `a && a = a`. -/
  | sameOperands
  /-- For instance `true && a = a`, `false || a = a` and `false && a = false`. -/
  | logicalConstant
  /-- For instance `broadcast(a, n) + broadcast(b, n) = broadcast(a + b, n)`. -/
  | broadcastOp
  /-- For instance `ramp(a, s, n) + ramp(b, t, n) = ramp(a + b, s + t, n)`. -/
  | rampAddRamp
  /-- For instance `ramp(a, s, n) + broadcast(b, n) = ramp(a + b, s, n)`. -/
  | rampAddBroadcast
  /-- For instance `ramp(a, s, n) * broadcast(b, n) = ramp(a * b, s * b, n)`. -/
  | rampMulBroadcast
  /-- For instance `ramp(a, 0, n) = broadcast(a, n)`. -/
  | rampZeroStride
  /-- For instance `!broadcast(a, n) = broadcast(!a, n)`. -/
  | broadcastUnary
  /-- For instance `(x + 1) + 2 = x + 3` and `(x * 2) * 3 = x * 6`. -/
  | collectConstants
  /-- For instance `x + -3 = x - 3` and `x - -3 = x + 3`. -/
  | negativeConstant
  /-- For instance `x + x = x * 2`. -/
  | addSelf
  /-- For instance `x * 2 + x * 3 = x * 5`. -/
  | factorTerms
  /-- For instance `(x - y) + y = x` and `(x + y) - x = y`. -/
  | cancelTerms
  /-- For instance `(x + 1) + y = (x + y) + 1`. -/
  | moveConstantOut
  /-- For instance `min(x, y) + max(x, y) = x + y`. -/
  | minPlusMax
  /-- For instance `x - min(x, y) = max(x - y, 0)`. -/
  | subtractMinMax
  /-- For instance `select(c, a, b) + select(c, d, e) = select(c, a + d, b + e)`. -/
  | distributeSelect
  /-- For instance `truncdiv(x, c) * c + truncmod(x, c) = x`
  and `floordiv(x, c) * c + floormod(x, c) = x`. -/
  | reassembleDivMod
  /-- For instance `(x + 1) * 2 = x * 2 + 2`. -/
  | distributeConstant
  /-- For instance `floordiv(x * 4 + y, 2) = x * 2 + floordiv(y, 2)`
  and `floormod(x * 4 + y, 2) = floormod(y, 2)`. -/
  | splitDivisible
  /-- For instance `floordiv(x * 4, 2) = x * 2` and `floormod(x * 4, 2) = 0`. -/
  | divideExact
  /-- For instance `floordiv(floordiv(x, 2), 3) = floordiv(x, 6)`
  and `floormod(floormod(x, 6), 3) = floormod(x, 3)`. -/
  | nestedDivision
  /-- For instance `floormod(x, 8) = x` if `x` is known to lie in `[0, 8)`. -/
  | modInRange
  /-- For instance `floormod(x + 9, 4) = floormod(x + 1, 4)`. -/
  | reduceOffset
  /-- For instance `floormod(x, 4) = 1` if `x` is known to be congruent to `1` modulo `4`. -/
  | modularRemainder
  /-- For instance `min(x, y) = x` if `x <= y` is known. -/
  | minMaxKnown
  /-- For instance `min(min(x, 2), 3) = min(x, 2)`. -/
  | minMaxConstants
  /-- For instance `min(x, max(x, y)) = x`. -/
  | minMaxAbsorb
  /-- For instance `min(min(x, y), x) = min(x, y)`. -/
  | minMaxNested
  /-- For instance `min(a + b, a + c) = a + min(b, c)`. -/
  | minMaxCommonTerm
  /-- For instance `min(x * 2, y * 2) = min(x, y) * 2`
  and `min(x * -2, y * -2) = max(x, y) * -2`. -/
  | minMaxScale
  /-- For instance `a > b = b < a`, `x <= 3 = x < 4` and `3 < x = 4 <= x`. -/
  | normalizeComparison
  /-- For instance `x < y = true` if `x < y` is known. -/
  | compareKnown
  /-- For instance `x + 2 < 5 = x < 3`. -/
  | moveConstant
  /-- For instance `x * 4 < 10 = x < 3` and `x * 4 == 10 = false`. -/
  | divideComparison
  /-- For instance `a + b < a + c = b < c` and `x * 2 < y * 2 = x < y`. -/
  | cancelComparison
  /-- For instance `x * 8 + y < 16 = x < 2` if `y` is known to lie in `[0, 8)`. -/
  | dropRemainder
  /-- For instance `floordiv(x, 4) < 3 = x < 12`. -/
  | compareFloorDiv
  /-- For instance `x - y < 0 = x < y`. -/
  | compareDifference
  /-- For instance `a == true = a` and `a == false = !a`. -/
  | boolEquality
  /-- For instance `!!a = a`. -/
  | doubleNegation
  /-- For instance `!(a < b) = b <= a` and `!(a == b) = a != b`. -/
  | negateComparison
  /-- For instance `!(a && b) = !a || !b` and `!(a || b) = !a && !b`. -/
  | deMorgan
  /-- For instance `a && !a = false` and `x < y || y <= x = true`. -/
  | complement
  /-- For instance `x < 3 && 5 <= x = false` and `x < 5 || 3 <= x = true`. -/
  | contradiction
  /-- For instance `x < 3 && x < 5 = x < 3` and `3 <= x || 5 <= x = 3 <= x`. -/
  | mergeRanges
  /-- For instance `a = true` if `a` is a condition of an enclosing constraint. -/
  | knownLiteral
  /-- For instance `select(true, a, b) = a`. -/
  | selectConstant
  /-- For instance `select(c, a, a) = a`. -/
  | selectSame
  /-- For instance `select(!c, a, b) = select(c, b, a)`. -/
  | selectNegated
  /-- For instance `select(x < y, x, y) = min(x, y)` and `select(x < y, y, x) = max(x, y)`. -/
  | selectToMinMax
  /-- For instance `select(c, select(c, a, b), d) = select(c, a, d)`. -/
  | selectNested
  /-- For instance `int64(3) = 3`. -/
  | foldCast
  /-- For instance `int32(x) = x` if `x` is already an `int32`. -/
  | removeCast
  /-- For instance `int32(int64(x)) = int32(x)` if `int64` holds every value of `x`. -/
  | collapseCast
  /-- For instance `let x = 3 in x + 1 = 3 + 1`. -/
  | inlineLet
  /-- For instance `let x = y in z = z`. -/
  | dropLet
  deriving DecidableEq, Repr

/-- The name a step is reported by. -/
def Step.name : Step → String
  | foldConstants => "FoldConstants"
  | constantToRight => "ConstantToRight"
  | knownValue => "KnownValue"
  | addZero => "AddZero"
  | subtractSelf => "SubtractSelf"
  | multiplyOne => "MultiplyOne"
  | multiplyZero => "MultiplyZero"
  | modOne => "ModOne"
  | divideSelf => "DivideSelf"
  | sameOperands => "SameOperands"
  | logicalConstant => "LogicalConstant"
  | broadcastOp => "BroadcastOp"
  | rampAddRamp => "RampAddRamp"
  | rampAddBroadcast => "RampAddBroadcast"
  | rampMulBroadcast => "RampMulBroadcast"
  | rampZeroStride => "RampZeroStride"
  | broadcastUnary => "BroadcastUnary"
  | collectConstants => "CollectConstants"
  | negativeConstant => "NegativeConstant"
  | addSelf => "AddSelf"
  | factorTerms => "FactorTerms"
  | cancelTerms => "CancelTerms"
  | moveConstantOut => "MoveConstantOut"
  | minPlusMax => "MinPlusMax"
  | subtractMinMax => "SubtractMinMax"
  | distributeSelect => "DistributeSelect"
  | reassembleDivMod => "ReassembleDivMod"
  | distributeConstant => "DistributeConstant"
  | splitDivisible => "SplitDivisible"
  | divideExact => "DivideExact"
  | nestedDivision => "NestedDivision"
  | modInRange => "ModInRange"
  | reduceOffset => "ReduceOffset"
  | modularRemainder => "ModularRemainder"
  | minMaxKnown => "MinMaxKnown"
  | minMaxConstants => "MinMaxConstants"
  | minMaxAbsorb => "MinMaxAbsorb"
  | minMaxNested => "MinMaxNested"
  | minMaxCommonTerm => "MinMaxCommonTerm"
  | minMaxScale => "MinMaxScale"
  | normalizeComparison => "NormalizeComparison"
  | compareKnown => "CompareKnown"
  | moveConstant => "MoveConstant"
  | divideComparison => "DivideComparison"
  | cancelComparison => "CancelComparison"
  | dropRemainder => "DropRemainder"
  | compareFloorDiv => "CompareFloorDiv"
  | compareDifference => "CompareDifference"
  | boolEquality => "BoolEquality"
  | doubleNegation => "DoubleNegation"
  | negateComparison => "NegateComparison"
  | deMorgan => "DeMorgan"
  | complement => "Complement"
  | contradiction => "Contradiction"
  | mergeRanges => "MergeRanges"
  | knownLiteral => "KnownLiteral"
  | selectConstant => "SelectConstant"
  | selectSame => "SelectSame"
  | selectNegated => "SelectNegated"
  | selectToMinMax => "SelectToMinMax"
  | selectNested => "SelectNested"
  | foldCast => "FoldCast"
  | removeCast => "RemoveCast"
  | collapseCast => "CollapseCast"
  | inlineLet => "InlineLet"
  | dropLet => "DropLet"

end IndexAlgebra
