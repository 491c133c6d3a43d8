/-
This file proves that the rules for sums, differences and products of integers are exact. Each rule
is an equation of integer arithmetic that holds in every lane: what the rule reads of a node gives
the integers of its parts, and what it builds of the parts has the same integers.
-/
import IndexAlgebra.Proofs.Exact.Choices
import IndexAlgebra.Proofs.Fits.Sums

namespace IndexAlgebra.Reduction.Sums

open IndexAlgebra.Expr

attribute [local simp] Option.bind_eq_some_iff Option.guard_eq_some'

variable {check : RangeCheck} [check.Lawful] {env : Environment}
  {expr result first second term constant other moved : Expr}
  {op outer : BinaryOp} {dtype innerType : DataType}

/-! ### Terms -/

/-- The integers of an expression are those of its term, times its coefficient. -/
theorem splitCoefficient_spec (kinded : env.Kinded) (isInteger : dtype.isInteger = true)
    (yields : Yields check env expr dtype (expr.valueIn check env)) :
    Yields check env (splitCoefficient expr).1 dtype ((splitCoefficient expr).1.valueIn check env) ∧
      ∀ {index number}, expr.valueIn check env index = some number →
        ∃ factor, (splitCoefficient expr).1.valueIn check env index = some factor ∧
          factor * (splitCoefficient expr).2 = number := by
  unfold splitCoefficient
  cases found : expr.withConst? .mul with
  | none => exact ⟨yields, fun {_ number} isNumber => ⟨number, isNumber, Int.mul_one number⟩⟩
  | some parts =>
    obtain ⟨term, coefficient⟩ := parts
    obtain ⟨productType, constType, rfl⟩ := withConst?_eq_some.mp found
    have product := yields.parts kinded isInteger
    refine ⟨product.isFirst, fun isNumber => ?_⟩
    obtain ⟨factor, isFactor, made⟩ := product.made_const isNumber
    exact ⟨factor, isFactor, Option.some.inj made⟩

/-! ### Rules for sums and differences alike -/

theorem sameIn_negativeConstant? (isSum : op = .add ∨ op = .sub) (isOver : OverIntegers check env expr)
    (applies : negativeConstant? op expr = some result) : SameIn check env expr result := by
  simp [negativeConstant?] at applies
  obtain ⟨term, value, ⟨dtype, constType, rfl⟩, -, builds⟩ := applies
  have combines := isOver.combines (BinaryOp.arithmetic_of_isSum isSum)
  have arithmetic : (opposite op).opClass = .arithmetic := by rcases isSum with rfl | rfl <;> rfl
  refine combines.sameIn_binaryConst? combines.parts.isFirst arithmetic builds
    fun {_ x y} isX isY => ⟨x, isX, ?_⟩
  rw [valueIn_intConst isY]
  rcases isSum with rfl | rfl
  · exact congrArg some (Int.sub_neg ..)
  · exact congrArg some (Int.sub_eq_add_neg ..).symm

theorem sameIn_factorTerms? (isSum : op = .add ∨ op = .sub) (isOver : OverIntegers check env expr)
    (applies : factorTerms? op expr = some result) : SameIn check env expr result := by
  simp [factorTerms?] at applies
  obtain ⟨lhs, rhs, ⟨dtype, rfl⟩, ⟨⟨same, -⟩, -⟩, builds⟩ := applies
  have combines := isOver.combines (BinaryOp.arithmetic_of_isSum isSum)
  obtain ⟨isTerm, leftParts⟩ :=
    splitCoefficient_spec combines.kinded combines.isInteger combines.parts.isFirst
  obtain ⟨-, rightParts⟩ :=
    splitCoefficient_spec combines.kinded combines.isInteger combines.parts.isSecond
  refine combines.sameIn_binaryConst? isTerm rfl builds fun isX isY => ?_
  obtain ⟨factor, isFactor, rfl⟩ := leftParts isX
  obtain ⟨factor', isFactor', rfl⟩ := rightParts isY
  rw [← same] at isFactor'
  cases isFactor.symm.trans isFactor'
  refine ⟨factor, isFactor, ?_⟩
  rcases isSum with rfl | rfl
  · exact congrArg some (Int.mul_add ..)
  · exact congrArg some (Int.mul_sub ..)

/-- Two choices by one condition are added or subtracted branch by branch. -/
theorem sameIn_distributeSelect? (isOver : OverIntegers check env expr)
    (applies : distributeSelect? expr = some result) : SameIn check env expr result := by
  simp [distributeSelect?] at applies
  obtain ⟨op, lhs, rhs, ⟨dtype, rfl⟩, isSum, applies⟩ := applies
  have arithmetic := BinaryOp.arithmetic_of_isSum isSum
  have combines := isOver.combines arithmetic
  split at applies
  next leftType cond a b rightType cond' c d =>
    simp at applies
    obtain ⟨rfl, onTrue, buildsTrue, onFalse, buildsFalse, builds⟩ := applies
    have isLeft := combines.parts.isFirst
    have isRight := combines.parts.isSecond
    obtain ⟨isA, isB⟩ := isLeft.branches
    obtain ⟨isC, isD⟩ := isRight.branches
    have isTrue := combines.yields_binary? isA isC arithmetic buildsTrue
    have isFalse := combines.yields_binary? isB isD arithmetic buildsFalse
    refine combines.sameIn (isLeft.select? combines.kinded isTrue isFalse builds)
      fun isX isY => ?_
    obtain ⟨truth, isTruth, isX⟩ := isLeft.valueIn_select combines.kinded isX
    obtain ⟨truth', isTruth', isY⟩ := isRight.valueIn_select combines.kinded isY
    cases isTruth.symm.trans isTruth'
    rw [isTruth]
    cases truth <;>
      simp only [Option.bind_some, Bool.false_eq_true, if_true, if_false] at isX isY ⊢ <;>
      rw [isX, isY] <;> rfl
  next => cases applies

/-- `(x ± c) ± y = (x ± y) ± c` -/
theorem sameIn_moveOutOfFirst (isOuter : outer = .add ∨ outer = .sub)
    (isSum : op = .add ∨ op = .sub)
    (combines : Combines check env outer expr (binary innerType op term constant) other)
    (moves : binary? outer term other = some moved)
    (builds : binary? op moved constant = some result) : SameIn check env expr result := by
  have inner := combines.ofFirst
  have isMoved := combines.yields_binary? inner.isFirst combines.parts.isSecond
    (BinaryOp.arithmetic_of_isSum isOuter) moves
  refine combines.sameIn_binary? isMoved inner.isSecond (BinaryOp.arithmetic_of_isSum isSum) builds
    fun isX isY => ?_
  obtain ⟨a, isA, c, isC, sum⟩ := inner.made isX
  rw [isA, isY]
  rcases isOuter with rfl | rfl <;> rcases isSum with rfl | rfl <;> cases sum <;>
    exact ⟨_, rfl, c, isC, congrArg some (by omega)⟩

/-- `y + (x ± c) = (y + x) ± c`, `y - (x ± c) = (y - x) ∓ c` -/
theorem sameIn_moveOutOfSecond (isOuter : outer = .add ∨ outer = .sub)
    (isSum : op = .add ∨ op = .sub)
    (combines : Combines check env outer expr other (binary innerType op term constant))
    (moves : binary? outer other term = some moved)
    (builds : binary? (if outer = .add then op else opposite op) moved constant = some result) :
    SameIn check env expr result := by
  have inner := combines.ofSecond
  have isMoved := combines.yields_binary? combines.parts.isFirst inner.isFirst
    (BinaryOp.arithmetic_of_isSum isOuter) moves
  have arithmetic : (if outer = .add then op else opposite op).opClass = .arithmetic := by
    rcases isOuter with rfl | rfl <;> rcases isSum with rfl | rfl <;> rfl
  refine combines.sameIn_binary? isMoved inner.isSecond arithmetic builds fun isX isY => ?_
  obtain ⟨a, isA, c, isC, sum⟩ := inner.made isY
  rw [isA, isX]
  rcases isOuter with rfl | rfl <;> rcases isSum with rfl | rfl <;> cases sum <;>
    exact ⟨_, rfl, c, isC, congrArg some (by omega)⟩

/-! ### Sums -/

theorem sameIn_collectInSum? (isOver : OverIntegers check env expr)
    (applies : collectInSum? expr = some result) : SameIn check env expr result := by
  simp [collectInSum?] at applies
  obtain ⟨c, op, a, b, ⟨innerType, dtype, constType, rfl⟩, builds⟩ := applies
  have combines := isOver.combines rfl
  split at builds
  case h_1 d isConst | h_2 d isConst =>
    obtain ⟨otherType, rfl⟩ := asInt?_eq_some.mp isConst
    exact combines.sameIn_constants rfl builds fun x => congrArg some (by omega)
  next d isConst _ =>
    obtain ⟨otherType, rfl⟩ := asInt?_eq_some.mp isConst
    exact combines.sameIn_constantsLeft rfl builds fun x => congrArg some (by omega)
  next => cases builds

theorem sameIn_addSelf? (isOver : OverIntegers check env expr)
    (applies : addSelf? expr = some result) : SameIn check env expr result := by
  simp [addSelf?] at applies
  obtain ⟨term, ⟨dtype, rfl⟩, builds⟩ := applies
  have combines := isOver.combines rfl
  refine combines.sameIn_binaryConst? combines.parts.isFirst rfl builds fun {_ x y} isX isY => ?_
  cases isX.symm.trans isY
  exact ⟨x, isX, congrArg some (by omega)⟩

/-- A difference and its subtrahend sum up to the minuend. -/
theorem sameIn_of_restored
    (combines : Combines check env .add expr (binary innerType .sub result term) term) :
    SameIn check env expr result := by
  have inner := combines.ofFirst
  refine combines.sameIn inner.isFirst fun isX isY => ?_
  obtain ⟨minuend, isMinuend, subtrahend, isSubtrahend, made⟩ := inner.made isX
  cases isSubtrahend.symm.trans isY
  cases made
  rw [isMinuend]
  exact congrArg some (Int.sub_add_cancel ..).symm

theorem sameIn_cancelInSum? (isOver : OverIntegers check env expr)
    (applies : cancelInSum? expr = some result) : SameIn check env expr result := by
  simp [cancelInSum?] at applies
  obtain ⟨lhs, rhs, ⟨dtype, rfl⟩, ⟨innerType, rfl⟩ | ⟨-, innerType, rfl⟩⟩ := applies
  · exact sameIn_of_restored (isOver.combines rfl)
  · exact sameIn_of_restored ((isOver.combines rfl).symm rfl)

/-- The quotient times the divisor and the remainder make up the dividend. -/
def Reassembles (division modulo : BinaryOp) : Prop :=
  ∀ dividend divisor quotient remainder, division.onLane dividend divisor = some quotient →
    modulo.onLane dividend divisor = some remainder → quotient * divisor + remainder = dividend

theorem reassembles_trunc : Reassembles .truncDiv .truncMod := by
  intro dividend divisor quotient remainder isQuotient isRemainder
  simp [BinaryOp.onLane] at isQuotient isRemainder
  obtain ⟨-, rfl⟩ := isQuotient
  obtain ⟨-, rfl⟩ := isRemainder
  exact Int.tdiv_mul_add_tmod ..

theorem reassembles_floor : Reassembles .floorDiv .floorMod := by
  intro dividend divisor quotient remainder isQuotient isRemainder
  simp [BinaryOp.onLane] at isQuotient isRemainder
  obtain ⟨-, rfl⟩ := isQuotient
  obtain ⟨-, rfl⟩ := isRemainder
  exact Int.fdiv_mul_add_fmod ..

theorem sameIn_of_reassembles {division modulo : BinaryOp} {divisor : Expr}
    {productType quotientType remainderType : DataType} (reassembles : Reassembles division modulo)
    (combines : Combines check env .add expr
      (binary productType .mul (binary quotientType division result divisor) divisor)
      (binary remainderType modulo result divisor)) : SameIn check env expr result := by
  have product := combines.ofFirst
  have quotient := product.isFirst.parts combines.kinded combines.isInteger
  have remainder := combines.ofSecond
  refine combines.sameIn quotient.isFirst fun isX isY => ?_
  obtain ⟨q, isQuotient, d, isDivisor, multiplied⟩ := product.made isX
  obtain ⟨x, isDividend, d', isDivisor', divided⟩ := quotient.made isQuotient
  obtain ⟨x', isDividend', d'', isDivisor'', remains⟩ := remainder.made isY
  cases isDividend.symm.trans isDividend'
  cases isDivisor.symm.trans isDivisor'
  cases isDivisor.symm.trans isDivisor''
  cases multiplied
  rw [isDividend]
  exact congrArg some (reassembles _ _ _ _ divided remains).symm

theorem sameIn_of_reassembled? {product remainder : Expr}
    (combines : Combines check env .add expr product remainder)
    (found : reassembled? product remainder = some result) : SameIn check env expr result := by
  simp [reassembled?] at found
  obtain ⟨factor, division, dividend, divisor, quotientType, ⟨productType, rfl⟩, found⟩ := found
  split at found
  next =>
    simp at found
    obtain ⟨⟨remainderType, rfl⟩, rfl, rfl⟩ := found
    exact sameIn_of_reassembles reassembles_trunc combines
  next =>
    simp at found
    obtain ⟨⟨remainderType, rfl⟩, rfl, rfl⟩ := found
    exact sameIn_of_reassembles reassembles_floor combines
  next => cases found

/-- The smaller and the greater of the same operands, in either order, sum up to their sum. -/
theorem sameIn_of_minPlusMax {a b c d : Expr} {leastType greatestType : DataType}
    (combines : Combines check env .add expr (binary leastType .min a b) (binary greatestType .max c d))
    (same : a = c ∧ b = d ∨ a = d ∧ b = c) (builds : binary? .add a b = some result) :
    SameIn check env expr result := by
  have least := combines.ofFirst
  have greatest := combines.ofSecond
  refine combines.sameIn_binary? least.isFirst least.isSecond rfl builds fun isX isY => ?_
  obtain ⟨x, isA, y, isB, smaller⟩ := least.made isX
  obtain ⟨z, isC, w, isD, larger⟩ := greatest.made isY
  cases smaller
  cases larger
  refine ⟨x, isA, y, isB, congrArg some ?_⟩
  rcases same with ⟨rfl, rfl⟩ | ⟨rfl, rfl⟩
  · cases isA.symm.trans isC
    cases isB.symm.trans isD
    exact (min_add_max x y).symm
  · cases isA.symm.trans isD
    cases isB.symm.trans isC
    rw [max_comm]
    exact (min_add_max x y).symm

theorem sameIn_reassemble? (isOver : OverIntegers check env expr)
    (applies : reassemble? expr = some result) : SameIn check env expr result := by
  simp [reassemble?] at applies
  obtain ⟨lhs, rhs, ⟨dtype, rfl⟩, found | ⟨-, found⟩⟩ := applies
  · exact sameIn_of_reassembled? (isOver.combines rfl) found
  · exact sameIn_of_reassembled? ((isOver.combines rfl).symm rfl) found

theorem sameIn_minPlusMax? (isOver : OverIntegers check env expr)
    (applies : minPlusMax? expr = some result) : SameIn check env expr result := by
  simp [minPlusMax?] at applies
  obtain ⟨lhs, rhs, ⟨dtype, rfl⟩, applies⟩ := applies
  split at applies
  next least greatest isLeast isGreatest =>
    obtain ⟨leastType, rfl⟩ := operands?_eq_some.mp isLeast
    obtain ⟨greatestType, rfl⟩ := operands?_eq_some.mp isGreatest
    simp at applies
    exact sameIn_of_minPlusMax (isOver.combines rfl) applies.1 applies.2
  next =>
    simp at applies
    obtain ⟨a, b, c, d, ⟨⟨leastType, rfl⟩, greatestType, rfl⟩, same, builds⟩ := applies
    exact sameIn_of_minPlusMax ((isOver.combines rfl).symm rfl) same builds

theorem sameIn_moveOutOfSum? (isOver : OverIntegers check env expr)
    (applies : moveOutOfSum? expr = some result) : SameIn check env expr result := by
  simp [moveOutOfSum?] at applies
  obtain ⟨lhs, rhs, ⟨dtype, rfl⟩, -, found⟩ := applies
  split at found
  next op term constant isSplit =>
    obtain ⟨isSum, innerType, rfl⟩ := splitConstant?_eq_some isSplit
    obtain ⟨moved, moves, builds⟩ := Option.bind_eq_some_iff.mp found
    exact sameIn_moveOutOfFirst (.inl rfl) isSum (isOver.combines rfl) moves builds
  next op term constant _ isSplit =>
    obtain ⟨isSum, innerType, rfl⟩ := splitConstant?_eq_some isSplit
    obtain ⟨moved, moves, builds⟩ := Option.bind_eq_some_iff.mp found
    exact sameIn_moveOutOfSecond (.inl rfl) isSum (isOver.combines rfl) moves builds
  next => cases found

/-- What a rule for sums makes has the value of the sum. -/
theorem sameIn_of_sumRules {rule : Rule} {answers : Answers} (member : rule ∈ sumRules)
    (isOver : OverIntegers check env expr) (rewrites : rule.Rewrites answers expr result) :
    SameIn check env expr result := by
  simp only [sumRules, Rule.pure, List.mem_cons, List.not_mem_nil, or_false] at member
  rcases member with rfl | rfl | rfl | rfl | rfl | rfl | rfl | rfl | rfl
  · exact sameIn_negativeConstant? (.inl rfl) isOver rewrites
  · exact sameIn_collectInSum? isOver rewrites
  · exact sameIn_cancelInSum? isOver rewrites
  · exact sameIn_addSelf? isOver rewrites
  · exact sameIn_factorTerms? (.inl rfl) isOver rewrites
  · exact sameIn_reassemble? isOver rewrites
  · exact sameIn_minPlusMax? isOver rewrites
  · exact sameIn_distributeSelect? isOver rewrites
  · exact sameIn_moveOutOfSum? isOver rewrites

/-! ### Differences -/

/-- A sum or difference with a constant, from which another constant is subtracted. -/
theorem sameIn_of_lessConstant {constType : DataType} {c : Int} {a b : Expr}
    (builds : (match op, a.asInt?, b.asInt? with
      | .add, _, some d => binaryConst? .add a (d - c)
      | .sub, _, some d => binaryConst? .sub a (d + c)
      | .sub, some d, none => constBinary? .sub (d - c) b
      | _, _, _ => none) = some result)
    (combines : Combines check env .sub expr (binary innerType op a b) (intConst constType c)) :
    SameIn check env expr result := by
  split at builds
  case h_1 d isConst | h_2 d isConst =>
    obtain ⟨otherType, rfl⟩ := asInt?_eq_some.mp isConst
    exact combines.sameIn_constants rfl builds fun x => congrArg some (by omega)
  next d isConst _ =>
    obtain ⟨otherType, rfl⟩ := asInt?_eq_some.mp isConst
    exact combines.sameIn_constantsLeft rfl builds fun x => congrArg some (by omega)
  next => cases builds

/-- A sum or difference with a constant, which is subtracted from another constant. -/
theorem sameIn_of_constantLess {constType : DataType} {c : Int} {a b : Expr}
    (builds : (match op, a.asInt?, b.asInt? with
      | .add, _, some d => constBinary? .sub (c - d) a
      | .sub, some d, none => binaryConst? .add b (c - d)
      | _, _, _ => none) = some result)
    (combines : Combines check env .sub expr (intConst constType c) (binary innerType op a b)) :
    SameIn check env expr result := by
  have inner := combines.ofSecond
  split at builds
  next d isConst =>
    obtain ⟨otherType, rfl⟩ := asInt?_eq_some.mp isConst
    refine combines.sameIn_constBinary? inner.isFirst rfl builds fun isX isY => ?_
    obtain ⟨y, isA, made⟩ := inner.made_const isY
    cases made
    rw [valueIn_intConst isX]
    exact ⟨y, isA, congrArg some (by omega)⟩
  next d isConst _ =>
    obtain ⟨otherType, rfl⟩ := asInt?_eq_some.mp isConst
    refine combines.sameIn_binaryConst? inner.isSecond rfl builds fun isX isY => ?_
    obtain ⟨y, isB, made⟩ := inner.made_const_left isY
    cases made
    rw [valueIn_intConst isX]
    exact ⟨y, isB, congrArg some (by omega)⟩
  next => cases builds

theorem sameIn_collectInDifference? (isOver : OverIntegers check env expr)
    (applies : collectInDifference? expr = some result) : SameIn check env expr result := by
  simp [collectInDifference?] at applies
  obtain ⟨lhs, rhs, ⟨dtype, rfl⟩, applies⟩ := applies
  have combines := isOver.combines rfl
  split at applies
  next c isConst =>
    obtain ⟨constType, rfl⟩ := asInt?_eq_some.mp isConst
    simp at applies
    obtain ⟨op, a, b, ⟨innerType, rfl⟩, builds⟩ := applies
    exact sameIn_of_lessConstant builds combines
  next =>
    simp at applies
    obtain ⟨c, ⟨constType, rfl⟩, op, a, b, ⟨innerType, rfl⟩, builds⟩ := applies
    exact sameIn_of_constantLess builds combines

/-- Zero less a term, where the difference is the opposite of the term. -/
theorem sameIn_of_negated (combines : Combines check env .sub expr first second)
    (isTerm : Yields check env term expr.dtype (term.valueIn check env))
    (builds : (constantLike? first 0).bind (binary? .sub · term) = some result)
    (reads : ∀ {index x y}, first.valueIn check env index = some x →
      second.valueIn check env index = some y →
      ∃ number, term.valueIn check env index = some number ∧ x - y = -number) :
    SameIn check env expr result := by
  obtain ⟨zero, isZero, builds⟩ := Option.bind_eq_some_iff.mp builds
  refine combines.sameIn_binary? (combines.zero isZero) isTerm rfl builds fun isX isY => ?_
  obtain ⟨number, isNumber, opposite⟩ := reads isX isY
  exact ⟨0, rfl, number, isNumber, congrArg some (by omega)⟩

/-- `(a + b) - (a + c) = b - c`, with the terms in any order -/
theorem sameIn_of_sharedTerm {left right : Expr × Expr} {x y : Expr}
    (combines : Combines check env .sub expr first second) (isLeft : first.operands? .add = some left)
    (isRight : second.operands? .add = some right)
    (shares : withoutShared? left right = some (x, y))
    (builds : binary? .sub x y = some result) : SameIn check env expr result := by
  obtain ⟨leftType, rfl⟩ := operands?_eq_some.mp isLeft
  obtain ⟨rightType, rfl⟩ := operands?_eq_some.mp isRight
  obtain ⟨shared, isLeft, isRight⟩ :=
    parts_of_withoutShared? combines.ofFirst combines.ofSecond rfl shares
  refine combines.sameIn_binary? isLeft.isSecond isRight.isSecond rfl builds fun isX isY => ?_
  obtain ⟨s, -, a, isA, b, isB, sum, sum'⟩ := isLeft.made_shared isRight isX isY
  cases sum
  cases sum'
  exact ⟨a, isA, b, isB, congrArg some (by omega)⟩

/-- `(a - b) - (a - c) = c - b` -/
theorem sameIn_of_sharedMinuend {a b c : Expr} {leftType rightType : DataType}
    (combines : Combines check env .sub expr (binary leftType .sub a b) (binary rightType .sub a c))
    (builds : binary? .sub c b = some result) : SameIn check env expr result := by
  have isLeft := combines.ofFirst
  have isRight := combines.ofSecond
  refine combines.sameIn_binary? isRight.isSecond isLeft.isSecond rfl builds fun isX isY => ?_
  obtain ⟨minuend, -, p, isB, q, isC, difference, difference'⟩ :=
    isLeft.made_shared isRight isX isY
  cases difference
  cases difference'
  exact ⟨q, isC, p, isB, congrArg some (by omega)⟩

/-- `(x - y) - x = 0 - y` -/
theorem sameIn_of_minuendAgain
    (combines : Combines check env .sub expr (binary innerType .sub second term) second)
    (builds : (constantLike? (binary innerType .sub second term) 0).bind (binary? .sub · term) =
      some result) : SameIn check env expr result := by
  have inner := combines.ofFirst
  refine sameIn_of_negated combines inner.isSecond builds fun isX isY => ?_
  obtain ⟨x, isMinuend, y, isTerm, made⟩ := inner.made isX
  cases isMinuend.symm.trans isY
  cases made
  exact ⟨y, isTerm, by omega⟩

/-- `(x + y) - x = y`, with the terms of the sum in either order -/
theorem sameIn_of_sumLess (combines : Combines check env .sub expr first second)
    (isOther : otherOperand? first .add second = some result) : SameIn check env expr result := by
  have sum := combines.parts.isFirst.parts_of_otherOperand? combines.kinded combines.isInteger rfl
    isOther
  refine combines.sameIn sum.isSecond fun isX isY => ?_
  obtain ⟨y, isY', a, isA, made⟩ := sum.made isX
  cases isY.symm.trans isY'
  cases made
  rw [isA]
  exact congrArg some (by omega)

/-- `x - (x + y) = 0 - y`, with the terms of the sum in either order -/
theorem sameIn_of_lessSum (combines : Combines check env .sub expr first second)
    (isOther : otherOperand? second .add first = some term)
    (builds : (constantLike? first 0).bind (binary? .sub · term) = some result) :
    SameIn check env expr result := by
  have sum := combines.parts.isSecond.parts_of_otherOperand? combines.kinded combines.isInteger rfl
    isOther
  refine sameIn_of_negated combines sum.isSecond builds fun isX isY => ?_
  obtain ⟨x, isX', y, isTerm, made⟩ := sum.made isY
  cases isX.symm.trans isX'
  cases made
  exact ⟨y, isTerm, by omega⟩

/-- `x - (x - y) = y` -/
theorem sameIn_of_lessDifference
    (combines : Combines check env .sub expr first (binary innerType .sub first result)) :
    SameIn check env expr result := by
  have inner := combines.ofSecond
  refine combines.sameIn inner.isSecond fun isX isY => ?_
  obtain ⟨x, isX', y, isTerm, made⟩ := inner.made isY
  cases isX.symm.trans isX'
  cases made
  rw [isTerm]
  exact congrArg some (by omega)

theorem sameIn_cancelInDifference? (isOver : OverIntegers check env expr)
    (applies : cancelInDifference? expr = some result) : SameIn check env expr result := by
  simp only [cancelInDifference?, Option.bind_eq_bind, Option.bind_eq_some_iff, Prod.exists,
    operands?_eq_some] at applies
  obtain ⟨lhs, rhs, ⟨dtype, rfl⟩, applies⟩ := applies
  have combines := isOver.combines rfl
  split at applies
  next left right isLeft isRight =>
    obtain ⟨⟨x, y⟩, shares, builds⟩ := Option.bind_eq_some_iff.mp applies
    exact sameIn_of_sharedTerm combines isLeft isRight shares builds
  next => exact sameIn_of_sumLess combines applies
  next a b _ isLeft =>
    obtain ⟨leftType, rfl⟩ := operands?_eq_some.mp isLeft
    split at applies
    next c d isRight =>
      obtain ⟨rightType, rfl⟩ := operands?_eq_some.mp isRight
      split at applies
      next same =>
        subst same
        exact sameIn_of_sharedMinuend combines applies
      next =>
        obtain ⟨rfl, builds⟩ := Option.ite_none_right_eq_some.mp applies
        exact sameIn_of_minuendAgain combines builds
    next =>
      obtain ⟨rfl, builds⟩ := Option.ite_none_right_eq_some.mp applies
      exact sameIn_of_minuendAgain combines builds
  next =>
    obtain ⟨y, isOther, builds⟩ := Option.bind_eq_some_iff.mp applies
    exact sameIn_of_lessSum combines isOther builds
  next a b _ _ _ isRight =>
    obtain ⟨rightType, rfl⟩ := operands?_eq_some.mp isRight
    obtain ⟨rfl, equal⟩ := Option.ite_none_right_eq_some.mp applies
    cases equal
    exact sameIn_of_lessDifference combines
  next => cases applies

/-- `x - min(x, y) = max(x - y, 0)`, and so for the other operator that is its dual -/
theorem sameIn_of_lessExtremum {moved zero y : Expr} (isExtremum : op = .min ∨ op = .max)
    (combines : Combines check env .sub expr first second)
    (isOther : otherOperand? second op first = some y)
    (isZero : constantLike? first 0 = some zero) (moves : binary? .sub first y = some moved)
    (builds : binary? op.dual moved zero = some result) : SameIn check env expr result := by
  have arithmetic := BinaryOp.arithmetic_of_isExtremum (BinaryOp.isExtremum_dual isExtremum)
  have commutes := BinaryOp.isCommutative_of_isExtremum isExtremum
  have extremum := combines.parts.isSecond.parts_of_otherOperand? combines.kinded
    combines.isInteger commutes isOther
  have isMoved := combines.yields_binary? combines.parts.isFirst extremum.isSecond rfl moves
  refine combines.sameIn_binary? isMoved (combines.zero isZero) arithmetic builds
    fun {_ left _} isX isY => ?_
  obtain ⟨_, isX', right, isTerm, made⟩ := extremum.made isY
  cases isX.symm.trans isX'
  rw [isX, isTerm]
  refine ⟨left - right, rfl, 0, rfl, ?_⟩
  rcases isExtremum with rfl | rfl <;> cases made
  · exact congrArg some (by omega)
  · exact congrArg some (by omega)

/-- `min(x, y) - x = min(y - x, 0)`, and so for the greater one -/
theorem sameIn_of_extremumLess {moved zero y : Expr} (isExtremum : op = .min ∨ op = .max)
    (combines : Combines check env .sub expr first second)
    (isOther : otherOperand? first op second = some y)
    (isZero : constantLike? first 0 = some zero) (moves : binary? .sub y second = some moved)
    (builds : binary? op moved zero = some result) : SameIn check env expr result := by
  have arithmetic := BinaryOp.arithmetic_of_isExtremum isExtremum
  have commutes := BinaryOp.isCommutative_of_isExtremum isExtremum
  have extremum := combines.parts.isFirst.parts_of_otherOperand? combines.kinded
    combines.isInteger commutes isOther
  have isMoved := combines.yields_binary? extremum.isSecond combines.parts.isSecond rfl moves
  refine combines.sameIn_binary? isMoved (combines.zero isZero) arithmetic builds
    fun {_ _ right} isX isY => ?_
  obtain ⟨_, isY', left, isTerm, made⟩ := extremum.made isX
  cases isY.symm.trans isY'
  rw [isY, isTerm]
  refine ⟨left - right, rfl, 0, rfl, ?_⟩
  rcases isExtremum with rfl | rfl <;> cases made
  · exact congrArg some (by omega)
  · exact congrArg some (by omega)

theorem sameIn_subtractMinMax? (isOver : OverIntegers check env expr)
    (applies : subtractMinMax? expr = some result) : SameIn check env expr result := by
  simp only [subtractMinMax?, Option.bind_eq_bind, Option.bind_eq_some_iff, Prod.exists,
    operands?_eq_some] at applies
  obtain ⟨lhs, rhs, ⟨dtype, rfl⟩, zero, isZero, applies⟩ := applies
  have combines := isOver.combines rfl
  split at applies
  next y isOther =>
    obtain ⟨moved, moves, builds⟩ := Option.bind_eq_some_iff.mp applies
    exact sameIn_of_lessExtremum (.inl rfl) combines isOther isZero moves builds
  next y _ isOther =>
    obtain ⟨moved, moves, builds⟩ := Option.bind_eq_some_iff.mp applies
    exact sameIn_of_lessExtremum (.inr rfl) combines isOther isZero moves builds
  next y _ _ isOther =>
    obtain ⟨moved, moves, builds⟩ := Option.bind_eq_some_iff.mp applies
    exact sameIn_of_extremumLess (.inl rfl) combines isOther isZero moves builds
  next y _ _ _ isOther =>
    obtain ⟨moved, moves, builds⟩ := Option.bind_eq_some_iff.mp applies
    exact sameIn_of_extremumLess (.inr rfl) combines isOther isZero moves builds
  next => cases applies

theorem sameIn_moveOutOfDifference? (isOver : OverIntegers check env expr)
    (applies : moveOutOfDifference? expr = some result) : SameIn check env expr result := by
  simp [moveOutOfDifference?] at applies
  obtain ⟨lhs, rhs, ⟨dtype, rfl⟩, -, found⟩ := applies
  split at found
  next op term constant isSplit =>
    obtain ⟨isSum, innerType, rfl⟩ := splitConstant?_eq_some isSplit
    obtain ⟨moved, moves, builds⟩ := Option.bind_eq_some_iff.mp found
    exact sameIn_moveOutOfFirst (.inr rfl) isSum (isOver.combines rfl) moves builds
  next op term constant _ isSplit =>
    obtain ⟨isSum, innerType, rfl⟩ := splitConstant?_eq_some isSplit
    obtain ⟨moved, moves, builds⟩ := Option.bind_eq_some_iff.mp found
    exact sameIn_moveOutOfSecond (.inr rfl) isSum (isOver.combines rfl) moves builds
  next => cases found

/-- What a rule for differences makes has the value of the difference. -/
theorem sameIn_of_differenceRules {rule : Rule} {answers : Answers}
    (member : rule ∈ differenceRules) (isOver : OverIntegers check env expr)
    (rewrites : rule.Rewrites answers expr result) :
    SameIn check env expr result := by
  simp only [differenceRules, Rule.pure, List.mem_cons, List.not_mem_nil, or_false] at member
  rcases member with rfl | rfl | rfl | rfl | rfl | rfl | rfl
  · exact sameIn_negativeConstant? (.inr rfl) isOver rewrites
  · exact sameIn_collectInDifference? isOver rewrites
  · exact sameIn_cancelInDifference? isOver rewrites
  · exact sameIn_factorTerms? (.inr rfl) isOver rewrites
  · exact sameIn_subtractMinMax? isOver rewrites
  · exact sameIn_distributeSelect? isOver rewrites
  · exact sameIn_moveOutOfDifference? isOver rewrites

/-! ### Products -/

theorem sameIn_collectInProduct? (isOver : OverIntegers check env expr)
    (applies : collectInProduct? expr = some result) : SameIn check env expr result := by
  simp [collectInProduct?] at applies
  obtain ⟨c, term, d, ⟨innerType, otherType, dtype, constType, rfl⟩, builds⟩ := applies
  exact (isOver.combines rfl).sameIn_constants rfl builds fun x =>
    congrArg some (Int.mul_assoc ..).symm

/-- A term that is scaled has its integers times the factor. -/
theorem yields_scaleTerm? {factor : Int} {scaled : Expr} (kinded : env.Kinded)
    (isTerm : Yields check env term dtype (term.valueIn check env))
    (builds : scaleTerm? factor term = some scaled) :
    ∃ numbers, Yields check env scaled dtype numbers ∧ ∀ {index number},
      term.valueIn check env index = some number → numbers index = some (number * factor) := by
  unfold scaleTerm? at builds
  split at builds
  next value isConst =>
    obtain ⟨constType, rfl⟩ := asInt?_eq_some.mp isConst
    refine ⟨_, isTerm.constantLike? kinded builds, fun isNumber => ?_⟩
    rw [valueIn_intConst isNumber]
  next =>
    refine ⟨_, isTerm.binaryConst? kinded builds, fun isNumber => ?_⟩
    rw [isNumber]
    rfl

theorem sameIn_distributeConstant? (isOver : OverIntegers check env expr)
    (applies : distributeConstant? expr = some result) : SameIn check env expr result := by
  simp [distributeConstant?] at applies
  obtain ⟨c, op, a, b, ⟨innerType, dtype, constType, rfl⟩, ⟨isSum, -⟩, left, scalesLeft, right,
    scalesRight, builds⟩ := applies
  have combines := isOver.combines rfl
  have inner := combines.ofFirst
  obtain ⟨_, isLeft, leftIs⟩ := yields_scaleTerm? combines.kinded inner.isFirst scalesLeft
  obtain ⟨_, isRight, rightIs⟩ := yields_scaleTerm? combines.kinded inner.isSecond scalesRight
  refine combines.sameIn_binary? isLeft isRight (BinaryOp.arithmetic_of_isSum isSum) builds
    fun isX isY => ?_
  obtain ⟨x, isA, y, isB, made⟩ := inner.made isX
  rw [valueIn_intConst isY]
  refine ⟨x * c, leftIs isA, y * c, rightIs isB, ?_⟩
  rcases isSum with rfl | rfl <;> cases made
  · exact congrArg some (Int.add_mul ..).symm
  · exact congrArg some (Int.sub_mul ..).symm

/-- What a rule for products makes has the value of the product. -/
theorem sameIn_of_productRules {rule : Rule} {answers : Answers} (member : rule ∈ productRules)
    (isOver : OverIntegers check env expr) (rewrites : rule.Rewrites answers expr result) :
    SameIn check env expr result := by
  simp only [productRules, Rule.pure, List.mem_cons, List.not_mem_nil, or_false] at member
  rcases member with rfl | rfl
  · exact sameIn_collectInProduct? isOver rewrites
  · exact sameIn_distributeConstant? isOver rewrites

end IndexAlgebra.Reduction.Sums
