/-
This file proves that the rules for the smaller and the greater of two integers are exact. An
extremum moves past a term that is added to both of its operands and past a factor of both of them,
and becomes the other one where the term is subtracted from or the factor is negative.
-/
import IndexAlgebra.Proofs.Exactness
import IndexAlgebra.Proofs.Fits.Quotients
import Mathlib.Algebra.Order.Group.MinMax

namespace IndexAlgebra

/-! ### Extrema of integers -/

namespace BinaryOp

variable {op : BinaryOp} {factor : Int}

theorem exists_onLane_of_isExtremum (isExtremum : op = .min ∨ op = .max) (left right : Int) :
    ∃ extremum, op.onLane left right = some extremum := by
  rcases isExtremum with rfl | rfl
  · exact ⟨_, rfl⟩
  · exact ⟨_, rfl⟩

theorem onLane_add_add (isExtremum : op = .min ∨ op = .max) (shared left right : Int) :
    op.onLane (shared + left) (shared + right) = (op.onLane left right).map (shared + ·) := by
  rcases isExtremum with rfl | rfl
  · exact congrArg some (min_add_add_left shared left right)
  · exact congrArg some (max_add_add_left shared left right)

theorem onLane_sub_sub (isExtremum : op = .min ∨ op = .max) (shared left right : Int) :
    op.onLane (left - shared) (right - shared) = (op.onLane left right).map (· - shared) := by
  rcases isExtremum with rfl | rfl
  · exact congrArg some (min_sub_sub_right left right shared)
  · exact congrArg some (max_sub_sub_right left right shared)

/-- What is subtracted is the greater one where the difference is the smaller one. -/
theorem onLane_sub_dual (isExtremum : op = .min ∨ op = .max) (shared left right : Int) :
    op.onLane (shared - left) (shared - right) = (op.dual.onLane left right).map (shared - ·) := by
  rcases isExtremum with rfl | rfl
  · exact congrArg some (min_sub_sub_left shared left right)
  · exact congrArg some (max_sub_sub_left shared left right)

theorem onLane_mul_nonneg (isExtremum : op = .min ∨ op = .max) (nonneg : 0 ≤ factor)
    (left right : Int) :
    op.onLane (left * factor) (right * factor) = (op.onLane left right).map (· * factor) := by
  rcases isExtremum with rfl | rfl
  · exact congrArg some (min_mul_of_nonneg left right nonneg).symm
  · exact congrArg some (max_mul_of_nonneg left right nonneg).symm

/-- A negative factor makes the greater one the smaller one. -/
theorem onLane_mul_dual (isExtremum : op = .min ∨ op = .max) (nonpos : factor ≤ 0)
    (left right : Int) :
    op.onLane (left * factor) (right * factor) = (op.dual.onLane left right).map (· * factor) := by
  rcases isExtremum with rfl | rfl
  · exact congrArg some (antitone_mul_right nonpos).map_max.symm
  · exact congrArg some (antitone_mul_right nonpos).map_min.symm

end BinaryOp

namespace Reduction.Extrema

open IndexAlgebra.Expr

attribute [local simp] Option.bind_eq_some_iff Option.guard_eq_some'

variable {check : RangeCheck} [check.Lawful] {env : Environment}
  {expr result first second x y shared moved : Expr}
  {op sumOp : BinaryOp} {dtype : DataType}

/-- An extremum over integers combines its operands. -/
theorem combines_of_asExtremum? (isOver : OverIntegers check env expr)
    (found : asExtremum? expr = some (op, first, second)) :
    (op = .min ∨ op = .max) ∧ Combines check env op expr first second := by
  obtain ⟨isExtremum, dtype, rfl⟩ := asExtremum?_eq_some found
  exact ⟨isExtremum, isOver.combines (BinaryOp.arithmetic_of_isExtremum isExtremum)⟩

/-! ### Constants and repeated operands -/

theorem sameIn_extremumOfConstants? (isOver : OverIntegers check env expr)
    (applies : extremumOfConstants? expr = some result) : SameIn check env expr result := by
  simp [extremumOfConstants?] at applies
  obtain ⟨op, value, constType, term, other, innerType, otherType, found, builds⟩ := applies
  obtain ⟨isExtremum, combines⟩ := combines_of_asExtremum? isOver found
  refine combines.sameIn_constants (BinaryOp.arithmetic_of_isExtremum isExtremum) builds
    fun number => ?_
  rcases isExtremum with rfl | rfl
  · exact congrArg some (min_assoc ..).symm
  · exact congrArg some (max_assoc ..).symm

theorem hasOperand_iff {node term : Expr} :
    hasOperand op node term = true ↔
      ∃ a b, node.operands? op = some (a, b) ∧ (a = term ∨ b = term) := by
  unfold hasOperand
  cases node.operands? op with
  | none => simp
  | some operands =>
    obtain ⟨a, b⟩ := operands
    simp

/-- An operand of an extremum is one of its parts. -/
theorem parts_of_hasOperand {node term : Expr} (combines : Combines check env sumOp expr first second)
    (isNode : Yields check env node expr.dtype (node.valueIn check env))
    (commutes : op.isCommutative = true)
    (has : hasOperand op node term = true) : ∃ other, Parts check env op node expr.dtype term other := by
  obtain ⟨a, b, isOperands, same⟩ := hasOperand_iff.mp has
  obtain ⟨dtype, rfl⟩ := operands?_eq_some.mp isOperands
  have parts := isNode.parts combines.kinded combines.isInteger
  rcases same with rfl | rfl
  · exact ⟨b, parts⟩
  · exact ⟨a, parts.symm commutes⟩

/-- `min(x, max(x, y)) = x`, `max(x, min(x, y)) = x` -/
theorem sameIn_of_absorbed (isExtremum : op = .min ∨ op = .max)
    (combines : Combines check env op expr result second)
    (has : hasOperand op.dual second result = true) : SameIn check env expr result := by
  obtain ⟨other, inner⟩ := parts_of_hasOperand combines combines.parts.isSecond
    (BinaryOp.isCommutative_of_isExtremum (BinaryOp.isExtremum_dual isExtremum)) has
  refine combines.sameIn_first fun isX isY => ?_
  obtain ⟨left, isLeft, right, -, made⟩ := inner.made isY
  cases isX.symm.trans isLeft
  rcases isExtremum with rfl | rfl <;> cases made
  · exact congrArg some (by omega)
  · exact congrArg some (by omega)

theorem sameIn_absorb? (isOver : OverIntegers check env expr)
    (applies : absorb? expr = some result) : SameIn check env expr result := by
  simp [absorb?] at applies
  obtain ⟨op, lhs, rhs, found, applies⟩ := applies
  obtain ⟨isExtremum, combines⟩ := combines_of_asExtremum? isOver found
  split at applies
  next has =>
    cases applies
    exact sameIn_of_absorbed isExtremum combines has
  next =>
    obtain ⟨has, equal⟩ := Option.ite_none_right_eq_some.mp applies
    cases equal
    exact sameIn_of_absorbed isExtremum
      (combines.symm (BinaryOp.isCommutative_of_isExtremum isExtremum)) has

/-- `min(min(x, y), x) = min(x, y)`, `max(max(x, y), x) = max(x, y)` -/
theorem sameIn_of_repeated (isExtremum : op = .min ∨ op = .max)
    (combines : Combines check env op expr result second) (has : hasOperand op result second = true) :
    SameIn check env expr result := by
  obtain ⟨other, inner⟩ := parts_of_hasOperand combines combines.parts.isFirst
    (BinaryOp.isCommutative_of_isExtremum isExtremum) has
  refine combines.sameIn_first fun isX isY => ?_
  obtain ⟨left, isLeft, right, -, made⟩ := inner.made isX
  cases isY.symm.trans isLeft
  rcases isExtremum with rfl | rfl <;> cases made
  · exact congrArg some (by omega)
  · exact congrArg some (by omega)

theorem sameIn_repeated? (isOver : OverIntegers check env expr)
    (applies : repeated? expr = some result) : SameIn check env expr result := by
  simp [repeated?] at applies
  obtain ⟨op, lhs, rhs, found, applies⟩ := applies
  obtain ⟨isExtremum, combines⟩ := combines_of_asExtremum? isOver found
  split at applies
  next has =>
    cases applies
    exact sameIn_of_repeated isExtremum combines has
  next =>
    obtain ⟨has, equal⟩ := Option.ite_none_right_eq_some.mp applies
    cases equal
    exact sameIn_of_repeated isExtremum
      (combines.symm (BinaryOp.isCommutative_of_isExtremum isExtremum)) has

/-! ### Common terms -/

omit [check.Lawful] in
/-- The extremum of two sums that share a term is the term and the extremum of what is left. -/
theorem onLane_of_sharedTerm {operand : DataType} {index : Nat} {left right : Int}
    (isExtremum : op = .min ∨ op = .max) (isLeft : Parts check env .add first operand shared x)
    (isRight : Parts check env .add second operand shared y)
    (isX : first.valueIn check env index = some left)
    (isY : second.valueIn check env index = some right) :
    ∃ s, shared.valueIn check env index = some s ∧ ∃ a, x.valueIn check env index = some a ∧
      ∃ b, y.valueIn check env index = some b ∧ ∃ extremum, op.onLane a b = some extremum ∧
        some (s + extremum) = op.onLane left right := by
  obtain ⟨s, isShared, a, isA, b, isB, sum, sum'⟩ := isLeft.made_shared isRight isX isY
  cases sum
  cases sum'
  obtain ⟨extremum, isExtreme⟩ := BinaryOp.exists_onLane_of_isExtremum isExtremum a b
  refine ⟨s, isShared, a, isA, b, isB, extremum, isExtreme, ?_⟩
  rw [BinaryOp.onLane_add_add isExtremum, isExtreme, Option.map_some]

/-- A term that is added to both operands is added to the extremum of what is left of them. -/
theorem sameIn_of_sharedTerm (isExtremum : op = .min ∨ op = .max)
    (combines : Combines check env op expr first second)
    (isLeft : Parts check env .add first expr.dtype shared x)
    (isRight : Parts check env .add second expr.dtype shared y) (moves : binary? op x y = some moved)
    (builds : binary? .add shared moved = some result ∨ binary? .add moved shared = some result) :
    SameIn check env expr result := by
  have isMoved := combines.yields_binary? isLeft.isSecond isRight.isSecond
    (BinaryOp.arithmetic_of_isExtremum isExtremum) moves
  rcases builds with builds | builds
  · refine combines.sameIn_binary? isLeft.isFirst isMoved rfl builds fun isX isY => ?_
    obtain ⟨s, isShared, a, isA, b, isB, extremum, isExtreme, same⟩ :=
      onLane_of_sharedTerm isExtremum isLeft isRight isX isY
    rw [isA, isB]
    exact ⟨s, isShared, extremum, isExtreme, same⟩
  · refine combines.sameIn_binary? isMoved isLeft.isFirst rfl builds fun isX isY => ?_
    obtain ⟨s, isShared, a, isA, b, isB, extremum, isExtreme, same⟩ :=
      onLane_of_sharedTerm isExtremum isLeft isRight isX isY
    rw [isA, isB]
    exact ⟨extremum, isExtreme, s, isShared, (congrArg some (Int.add_comm ..)).trans same⟩

/-- `min(x - s, y - s) = min(x, y) - s` -/
theorem sameIn_of_sharedSubtrahend (isExtremum : op = .min ∨ op = .max)
    (combines : Combines check env op expr first second)
    (isLeft : Parts check env .sub first expr.dtype x shared)
    (isRight : Parts check env .sub second expr.dtype y shared) (moves : binary? op x y = some moved)
    (builds : binary? .sub moved shared = some result) : SameIn check env expr result := by
  have isMoved := combines.yields_binary? isLeft.isFirst isRight.isFirst
    (BinaryOp.arithmetic_of_isExtremum isExtremum) moves
  refine combines.sameIn_binary? isMoved isLeft.isSecond rfl builds fun isX isY => ?_
  obtain ⟨a, isA, s, isShared, difference⟩ := isLeft.made isX
  obtain ⟨b, isB, s', isShared', difference'⟩ := isRight.made isY
  cases isShared.symm.trans isShared'
  cases difference
  cases difference'
  obtain ⟨extremum, isExtreme⟩ := BinaryOp.exists_onLane_of_isExtremum isExtremum a b
  rw [isA, isB]
  refine ⟨extremum, isExtreme, s, isShared, ?_⟩
  rw [BinaryOp.onLane_sub_sub isExtremum, isExtreme]
  rfl

/-- `min(s - x, s - y) = s - max(x, y)` -/
theorem sameIn_of_sharedMinuend (isExtremum : op = .min ∨ op = .max)
    (combines : Combines check env op expr first second)
    (isLeft : Parts check env .sub first expr.dtype shared x)
    (isRight : Parts check env .sub second expr.dtype shared y)
    (moves : binary? op.dual x y = some moved)
    (builds : binary? .sub shared moved = some result) : SameIn check env expr result := by
  have isDual := BinaryOp.isExtremum_dual isExtremum
  have isMoved := combines.yields_binary? isLeft.isSecond isRight.isSecond
    (BinaryOp.arithmetic_of_isExtremum isDual) moves
  refine combines.sameIn_binary? isLeft.isFirst isMoved rfl builds fun isX isY => ?_
  obtain ⟨s, isShared, a, isA, b, isB, difference, difference'⟩ :=
    isLeft.made_shared isRight isX isY
  cases difference
  cases difference'
  obtain ⟨extremum, isExtreme⟩ := BinaryOp.exists_onLane_of_isExtremum isDual a b
  rw [isA, isB]
  refine ⟨s, isShared, extremum, isExtreme, ?_⟩
  rw [BinaryOp.onLane_sub_dual isExtremum, isExtreme]
  rfl

theorem sameIn_commonTerm? (isOver : OverIntegers check env expr)
    (applies : commonTerm? expr = some result) : SameIn check env expr result := by
  simp [commonTerm?] at applies
  obtain ⟨op, lhs, rhs, found, applies⟩ := applies
  obtain ⟨isExtremum, combines⟩ := combines_of_asExtremum? isOver found
  split at applies
  next a b c d isLeft isRight =>
    obtain ⟨leftType, rfl⟩ := operands?_eq_some.mp isLeft
    obtain ⟨rightType, rfl⟩ := operands?_eq_some.mp isRight
    have left := combines.ofFirst
    have right := combines.ofSecond
    split at applies
    next same =>
      subst same
      obtain ⟨moved, moves, builds⟩ := Option.bind_eq_some_iff.mp applies
      exact sameIn_of_sharedTerm isExtremum combines left right moves (.inl builds)
    split at applies
    next same =>
      subst same
      obtain ⟨moved, moves, builds⟩ := Option.bind_eq_some_iff.mp applies
      exact sameIn_of_sharedTerm isExtremum combines (left.symm rfl) (right.symm rfl) moves
        (.inr builds)
    split at applies
    next same =>
      subst same
      obtain ⟨moved, moves, builds⟩ := Option.bind_eq_some_iff.mp applies
      exact sameIn_of_sharedTerm isExtremum combines left (right.symm rfl) moves (.inl builds)
    obtain ⟨rfl, shares⟩ := Option.ite_none_right_eq_some.mp applies
    obtain ⟨moved, moves, builds⟩ := Option.bind_eq_some_iff.mp shares
    exact sameIn_of_sharedTerm isExtremum combines (left.symm rfl) right moves (.inr builds)
  next a b c d isLeft isRight _ =>
    obtain ⟨leftType, rfl⟩ := operands?_eq_some.mp isLeft
    obtain ⟨rightType, rfl⟩ := operands?_eq_some.mp isRight
    have left := combines.ofFirst
    have right := combines.ofSecond
    split at applies
    next same =>
      subst same
      obtain ⟨moved, moves, builds⟩ := Option.bind_eq_some_iff.mp applies
      exact sameIn_of_sharedSubtrahend isExtremum combines left right moves builds
    obtain ⟨rfl, shares⟩ := Option.ite_none_right_eq_some.mp applies
    obtain ⟨moved, moves, builds⟩ := Option.bind_eq_some_iff.mp shares
    exact sameIn_of_sharedMinuend isExtremum combines left right moves builds
  next => cases applies

/-! ### Common factors -/

/-- A factor of both operands is a factor of what is left of them. -/
theorem sameIn_of_scaled {inner constant : Expr} {numbers : Nat → Option Int} {factor : Int}
    (combines : Combines check env op expr first second)
    (isTerm : Yields check env x expr.dtype (x.valueIn check env))
    (isInner : Yields check env inner expr.dtype numbers)
    (isConstant : constantLike? x factor = some constant)
    (builds : binary? .mul inner constant = some result)
    (reads : ∀ {index left right}, first.valueIn check env index = some left →
      second.valueIn check env index = some right →
        ∃ number, numbers index = some number ∧ op.onLane left right = some (number * factor)) :
    SameIn check env expr result := by
  have constant := isTerm.constantLike? combines.kinded isConstant
  refine combines.sameIn_binary? isInner constant rfl builds fun isX isY => ?_
  obtain ⟨number, isNumber, same⟩ := reads isX isY
  exact ⟨number, isNumber, factor, rfl, same.symm⟩

/-- `min(x * c, v) = min(x, v / c) * c`, where `v` is a multiple of a positive `c` -/
theorem sameIn_of_scaledConstant {inner constant : Expr} {productType constType : DataType}
    {c : Int} (isExtremum : op = .min ∨ op = .max)
    (combines : Combines check env op expr (binary productType .mul x (intConst constType c)) second)
    (moves : scaledConstant? op x c second = some inner)
    (isConstant : constantLike? x c = some constant)
    (builds : binary? .mul inner constant = some result) : SameIn check env expr result := by
  simp [scaledConstant?] at moves
  obtain ⟨value, ⟨otherType, rfl⟩, ⟨nonneg, isMultiple⟩, moves⟩ := moves
  have product := combines.ofFirst
  have isInner := product.isFirst.binaryConst? combines.kinded moves
  rw [binaryType_of_arithmetic (BinaryOp.arithmetic_of_isExtremum isExtremum)] at isInner
  refine sameIn_of_scaled combines product.isFirst isInner isConstant builds fun isX isY => ?_
  obtain ⟨number, isTerm, made⟩ := product.made_const isX
  cases made
  obtain ⟨extremum, isExtreme⟩ :=
    BinaryOp.exists_onLane_of_isExtremum isExtremum number (value.tdiv c)
  refine ⟨extremum, by rw [isTerm]; exact isExtreme, ?_⟩
  have scaled := BinaryOp.onLane_mul_nonneg isExtremum nonneg number (value.tdiv c)
  rw [Int.tdiv_mul_cancel (Int.dvd_of_tmod_eq_zero isMultiple), isExtreme] at scaled
  rw [valueIn_intConst isY]
  exact scaled

/-- `min(x * c, y * c) = min(x, y) * c`, with the other extremum for a negative `c` -/
theorem sameIn_of_scaledTerms {inner constant : Expr} {c : Int}
    {leftType leftConst rightType rightConst : DataType} (isExtremum : op = .min ∨ op = .max)
    (combines : Combines check env op expr (binary leftType .mul x (intConst leftConst c))
      (binary rightType .mul y (intConst rightConst c)))
    (moves : binary? (if 0 < c then op else op.dual) x y = some inner)
    (isConstant : constantLike? x c = some constant)
    (builds : binary? .mul inner constant = some result) : SameIn check env expr result := by
  have left := combines.ofFirst
  have right := combines.ofSecond
  have isMoved :
      (if 0 < c then op else op.dual) = .min ∨ (if 0 < c then op else op.dual) = .max := by
    split
    · exact isExtremum
    · exact BinaryOp.isExtremum_dual isExtremum
  have isInner := combines.yields_binary? left.isFirst right.isFirst
    (BinaryOp.arithmetic_of_isExtremum isMoved) moves
  refine sameIn_of_scaled combines left.isFirst isInner isConstant builds fun isX isY => ?_
  obtain ⟨a, isA, product⟩ := left.made_const isX
  obtain ⟨b, isB, product'⟩ := right.made_const isY
  cases product
  cases product'
  obtain ⟨extremum, isExtreme⟩ := BinaryOp.exists_onLane_of_isExtremum isMoved a b
  refine ⟨extremum, by rw [isA, isB]; exact isExtreme, ?_⟩
  split at isExtreme
  next positive =>
    rw [BinaryOp.onLane_mul_nonneg isExtremum positive.le, isExtreme, Option.map_some]
  next notPositive =>
    rw [BinaryOp.onLane_mul_dual isExtremum (by omega), isExtreme, Option.map_some]

theorem sameIn_scale? (isOver : OverIntegers check env expr)
    (applies : scale? expr = some result) : SameIn check env expr result := by
  simp [scale?] at applies
  obtain ⟨op, rhs, x, c, ⟨leftType, leftConst, found⟩, -, applies⟩ := applies
  obtain ⟨isExtremum, combines⟩ := combines_of_asExtremum? isOver found
  split at applies
  next y d isRight =>
    obtain ⟨rightType, rightConst, rfl⟩ := withConst?_eq_some.mp isRight
    split at applies
    next same =>
      subst same
      obtain ⟨inner, moves, applies⟩ := Option.bind_eq_some_iff.mp applies
      obtain ⟨constant, isConstant, builds⟩ := Option.bind_eq_some_iff.mp applies
      exact sameIn_of_scaledTerms isExtremum combines moves isConstant builds
    next =>
      obtain ⟨inner, moves, applies⟩ := Option.bind_eq_some_iff.mp applies
      obtain ⟨constant, isConstant, builds⟩ := Option.bind_eq_some_iff.mp applies
      exact sameIn_of_scaledConstant isExtremum combines moves isConstant builds
  next =>
    obtain ⟨inner, moves, applies⟩ := Option.bind_eq_some_iff.mp applies
    obtain ⟨constant, isConstant, builds⟩ := Option.bind_eq_some_iff.mp applies
    exact sameIn_of_scaledConstant isExtremum combines moves isConstant builds

/-! ### Known order -/

theorem le_of_isLe {relation : Relation} {left right : Int} (holds : relation.Holds left right)
    (isLe : relation.isLe = true) : left ≤ right := by
  cases relation <;> cases isLe <;> simp only [Relation.Holds] at holds <;> omega

theorem le_of_isGe {relation : Relation} {left right : Int} (holds : relation.Holds left right)
    (isGe : relation.isGe = true) : right ≤ left := by
  cases relation <;> cases isGe <;> simp only [Relation.Holds] at holds <;> omega

theorem sameIn_knownExtremum? {relation : Relation} (isOver : OverIntegers check env expr)
    (found : asExtremum? expr = some (op, first, second))
    (told : ∀ {index left right}, first.valueIn check env index = some left →
      second.valueIn check env index = some right → relation.Holds left right)
    (applies : knownExtremum? relation expr = some result) : SameIn check env expr result := by
  obtain ⟨-, combines⟩ := combines_of_asExtremum? isOver found
  simp [knownExtremum?, found] at applies
  split at applies
  next isLe =>
    cases applies
    exact combines.sameIn_first fun isX isY =>
      congrArg some (min_eq_left (le_of_isLe (told isX isY) isLe))
  next isGe =>
    cases applies
    exact combines.sameIn_first fun isX isY =>
      congrArg some (max_eq_left (le_of_isGe (told isX isY) isGe))
  next isGe _ =>
    cases applies
    exact (combines.symm rfl).sameIn_first fun isY isX =>
      congrArg some (min_eq_left (le_of_isGe (told isX isY) isGe))
  next isLe _ =>
    cases applies
    exact (combines.symm rfl).sameIn_first fun isY isX =>
      congrArg some (max_eq_left (le_of_isLe (told isX isY) isLe))
  next => cases applies

/-- What a rule for extrema makes has the value of the extremum, if everything that the rule is told
is true. -/
theorem sameIn_of_rewrites {rule : Rule} {answers : Answers} (member : rule ∈ rules)
    (isOver : OverIntegers check env expr) (told : ∀ question, answers.TrueIn check env question)
    (rewrites : rule.Rewrites answers expr result) : SameIn check env expr result := by
  simp only [rules, Rule.pure, List.mem_cons, List.not_mem_nil, or_false] at member
  rcases member with rfl | rfl | rfl | rfl | rfl | rfl
  · exact sameIn_extremumOfConstants? isOver rewrites
  · exact sameIn_absorb? isOver rewrites
  · exact sameIn_repeated? isOver rewrites
  · exact sameIn_commonTerm? isOver rewrites
  · exact sameIn_scale? isOver rewrites
  · obtain ⟨lhs, rhs, isOperands, applies⟩ := rewrites
    obtain ⟨⟨op, _⟩, found, equal⟩ := Option.map_eq_some_iff.mp isOperands
    cases equal
    exact sameIn_knownExtremum? isOver found (told (.relation lhs rhs) _ _ _) applies

end Reduction.Extrema

end IndexAlgebra
