/-
This file proves that the rules are exact on truth values. The truth values of a regular expression are
told by the integers zero and one in the lanes, so that the rules for them become equations of these.
The negation of a condition is the opposite in every lane, and what is known to be true stands for the
condition itself and against its negation.
-/
import IndexAlgebra.Proofs.Exact.Conditions
import IndexAlgebra.Proofs.RegularExpressions

namespace IndexAlgebra

/-- A type of truth values holds zero and one. -/
theorem DataType.fits_truth {dtype : DataType} (isBool : dtype.isBool = true) (truth : Bool) :
    dtype.fits truth.toNat = true := by
  obtain ⟨code, bits, lanes⟩ := dtype
  obtain rfl : code = .bool := beq_iff_eq.mp isBool
  cases truth <;> rfl

namespace Expr

variable {check : RangeCheck} [check.Lawful] {env : Environment} {result lhs rhs : Expr}
  {op : BinaryOp} {dtype : DataType} {index : Nat} {number : Int}

/-! ### Nodes over truth values -/

/-- A regular node whose operands are truth values. -/
structure OverTruths (env : Environment) (dtype : DataType) (op : BinaryOp)
    (lhs rhs result : Expr) : Prop
    extends Alike env (binary dtype op lhs rhs) result where
  isBool : lhs.dtype.isBool = true

namespace OverTruths

omit [check.Lawful] in
theorem types (node : OverTruths env dtype op lhs rhs result) :
    lhs.dtype = rhs.dtype ∧ dtype.isBool = true ∧ ¬op.opClass = .arithmetic := by
  have typed := node.regular.typed
  rw [WellTyped] at typed
  obtain ⟨-, -, same, isType, -⟩ := typed
  have isBool : dtype.isBool = true := by
    rw [isType, binaryType]
    split
    · rfl
    · exact node.isBool
  exact ⟨same, isBool, fun arithmetic => node.regular.not_mixesTruths ⟨arithmetic, isBool⟩⟩

omit [check.Lawful] in
theorem not_isInteger (node : OverTruths env dtype op lhs rhs result) : ¬dtype.isInteger = true := by
  rw [DataType.isInteger_of_isBool node.types.2.1]
  exact Bool.false_ne_true

omit [check.Lawful] in
theorem left_not_isInteger (node : OverTruths env dtype op lhs rhs result) :
    ¬lhs.dtype.isInteger = true := by
  rw [DataType.isInteger_of_isBool node.isBool]
  exact Bool.false_ne_true

omit [check.Lawful] in
/-- No operand is the constant of an integer type. -/
theorem asInt?_eq_none (node : OverTruths env dtype op lhs rhs result) :
    lhs.asInt? = none ∧ rhs.asInt? = none := by
  have none {expr : Expr} (regular : expr.Regular) (isBool : expr.dtype.isBool = true) :
      expr.asInt? = none := by
    cases expr with
    | intConst dtype value =>
      have typed := regular.typed
      rw [WellTyped] at typed
      cases (DataType.isInteger_of_isBool isBool).symm.trans typed.2.1
    | _ => rfl
  exact ⟨none (node.regular.child (by simp [children])) node.isBool,
    none (node.regular.child (by simp [children])) (node.types.1 ▸ node.isBool)⟩

/-- The lanes of the node are made of truth values. -/
theorem made (node : OverTruths env dtype op lhs rhs result)
    (isNumber : (binary dtype op lhs rhs).valueIn check env index = some number) :
    ∃ x y : Bool, lhs.valueIn check env index = some (x.toNat : Int) ∧
      rhs.valueIn check env index = some (y.toNat : Int) ∧ op.onLane x.toNat y.toNat = some number := by
  obtain ⟨left, isLeft, right, isRight, made⟩ := node.regular.valueIn_binary node.truthful isNumber
  have isLhs : lhs.Regular := node.regular.child (by simp [children])
  have isRhs : rhs.Regular := node.regular.child (by simp [children])
  obtain ⟨x, rfl⟩ := isLhs.exists_truth node.truthful node.isBool isLeft
  obtain ⟨y, rfl⟩ := isRhs.exists_truth node.truthful (node.types.1 ▸ node.isBool) isRight
  exact ⟨x, y, isLeft, isRight, made⟩

/-- An operand that the operator leaves as it is. -/
theorem sameIn_of_made (node : OverTruths env dtype op lhs rhs result)
    (reads : ∀ {index} {x y : Bool} {first second : Int},
      lhs.valueIn check env index = some (x.toNat : Int) →
      rhs.valueIn check env index = some (y.toNat : Int) → op.onLane x.toNat y.toNat = some first →
      result.valueIn check env index = some second → first = second) :
    SameIn check env (binary dtype op lhs rhs) result := by
  refine node.toAlike.sameIn fun {index first second} isFirst isSecond => ?_
  obtain ⟨x, y, isX, isY, made⟩ := node.made isFirst
  exact reads isX isY made isSecond

end OverTruths

end Expr

/-! ### Reliable evidence -/

/-- What the evidence says is so: the bound and the congruence class of an expression contain its
integers, a condition is told by the range that it is taken for, and the known conditions are true. -/
structure Evidence.Reliable (check : RangeCheck) (env : Environment) (evidence : Evidence) : Prop where
  bound : ∀ expr index number, expr.valueIn check env index = some number →
    (evidence.bound expr).contains number = true
  congruence : ∀ expr index number, expr.valueIn check env index = some number →
    (evidence.congruence expr).contains number = true
  range : ∀ {cond x range}, evidence.range cond = some (x, range) →
    Reduction.Conditions.ToldByRange check env cond x range
  truths : ∀ cond ∈ evidence.truths, cond.Regular ∧ cond.evaluate check env = some (.bool true)

/-! ### Identities -/

namespace Reduction.Identities

open IndexAlgebra.Expr

attribute [local simp] Option.bind_eq_some_iff Option.guard_eq_some'

variable {check : RangeCheck} [check.Lawful] {env : Environment} {answers : Answers}
  {result lhs rhs : Expr} {op : BinaryOp} {dtype : DataType}

/-- Two truth constants are folded to what the operator makes of them in a lane. -/
theorem onLane_of_foldBools? {left right : Bool} (folds : foldBools? op left right = some result) :
    ∃ truth : Bool, result = ofBool truth ∧ op.onLane left.toNat right.toNat = some truth.toNat := by
  cases op <;> cases folds <;> refine ⟨_, rfl, ?_⟩ <;> cases left <;> cases right <;> rfl

theorem sameIn_foldConstants?_truths (node : OverTruths env dtype op lhs rhs result)
    (applies : foldConstants? (binary dtype op lhs rhs) = some result) :
    SameIn check env (binary dtype op lhs rhs) result := by
  unfold foldConstants? at applies
  split at applies
  next shape =>
    cases shape
    cases node.asInt?_eq_none.1
  next floatType left _ right shape =>
    cases shape
    have typed : (floatConst floatType left).WellTyped :=
      (node.regular.child (by simp [children])).typed
    rw [WellTyped] at typed
    cases (DataType.isFloat_of_isBool node.isBool).symm.trans typed.2.1
  next shape =>
    cases shape
    obtain ⟨truth, rfl, folded⟩ := onLane_of_foldBools? applies
    refine node.sameIn_of_made fun {_ x y first second} isX isY made isSecond => ?_
    rw [valueIn_boolConst isX, valueIn_boolConst isY, folded] at made
    exact (Option.some.inj made).symm.trans (valueIn_boolConst isSecond).symm
  next shape => cases shape
  next => cases applies

theorem sameIn_constantToRight?_truths (node : OverTruths env dtype op lhs rhs result)
    (fits : hasConstantOnLeft (binary dtype op lhs rhs) = true)
    (applies : constantToRight? (binary dtype op lhs rhs) = some result) :
    SameIn check env (binary dtype op lhs rhs) result := by
  simp [hasConstantOnLeft, asBinary?] at fits
  obtain ⟨rfl, -⟩ := binary?_eq_some node.types.1.symm applies
  refine node.toAlike.sameIn_binary fun isX isY isP isQ made made' => ?_
  cases isX.symm.trans isQ
  cases isY.symm.trans isP
  exact Option.some.inj
    (made.symm.trans ((BinaryOp.onLane_comm fits.1.1 _ _).symm.trans made'))

/-- A truth constant beside a condition leaves it as it is, or it is the value. -/
theorem onLane_of_logical (isLogical : op.isLogical = true) (known other : Bool) :
    op.onLane known.toNat other.toNat =
        some ((if known = (op == .and) then other else known).toNat : Int) ∧
      op.onLane other.toNat known.toNat =
        some ((if known = (op == .and) then other else known).toNat : Int) := by
  cases op <;> cases isLogical <;> cases known <;> cases other <;> exact ⟨rfl, rfl⟩

theorem sameIn_logicalConstant?_truths (node : OverTruths env dtype op lhs rhs result)
    (applies : logicalConstant? (binary dtype op lhs rhs) = some result) :
    SameIn check env (binary dtype op lhs rhs) result := by
  simp [logicalConstant?, asBinary?] at applies
  obtain ⟨isLogical, applies⟩ := applies
  split at applies
  next known isKnown =>
    obtain ⟨constType, rfl⟩ := asBool?_eq_some.mp isKnown
    refine node.sameIn_of_made fun {_ x y first second} isX isY made isSecond => ?_
    rw [valueIn_boolConst isX, (onLane_of_logical isLogical known y).1] at made
    refine (Option.some.inj made).symm.trans ?_
    split at applies
    next absorbs =>
      cases applies
      rw [if_pos absorbs]
      exact Option.some.inj (isY.symm.trans isSecond)
    next decides =>
      cases applies
      rw [if_neg decides]
      exact (valueIn_boolConst isSecond).symm
  next known _ isKnown =>
    obtain ⟨constType, rfl⟩ := asBool?_eq_some.mp isKnown
    refine node.sameIn_of_made fun {_ x y first second} isX isY made isSecond => ?_
    rw [valueIn_boolConst isY, (onLane_of_logical isLogical known x).2] at made
    refine (Option.some.inj made).symm.trans ?_
    split at applies
    next absorbs =>
      cases applies
      rw [if_pos absorbs]
      exact Option.some.inj (isX.symm.trans isSecond)
    next decides =>
      cases applies
      rw [if_neg decides]
      exact (valueIn_boolConst isSecond).symm
  next => cases applies

theorem sameIn_sameOperands?_truths (node : OverTruths env dtype op lhs rhs result)
    (applies : sameOperands? (binary dtype op lhs rhs) = some result) :
    SameIn check env (binary dtype op lhs rhs) result := by
  have notArithmetic := node.types.2.2
  simp [sameOperands?, asBinary?] at applies
  obtain ⟨rfl, applies⟩ := applies
  split at applies
  next kept =>
    cases applies
    rcases kept with isExtremum | isLogical
    · exact absurd (BinaryOp.arithmetic_of_isExtremum isExtremum) notArithmetic
    · refine node.sameIn_of_made fun {_ x y first second} isX isY made isSecond => ?_
      cases truth_of_toNat_eq (Option.some.inj (isX.symm.trans isY))
      rw [(onLane_of_logical isLogical x x).1, ite_self] at made
      exact (Option.some.inj made).symm.trans (Option.some.inj (isX.symm.trans isSecond))
  next => simp [node.left_not_isInteger] at applies

/-- What a rule that holds for every operator makes of a node over truth values has the value of the
node. -/
theorem sameIn_of_rewrites_truths {rule : Rule} (member : rule ∈ rules)
    (node : OverTruths env dtype op lhs rhs result)
    (rewrites : rule.Rewrites answers (binary dtype op lhs rhs) result) :
    SameIn check env (binary dtype op lhs rhs) result := by
  have notInteger := node.not_isInteger
  have notLeft := node.left_not_isInteger
  simp only [rules, Rule.pure, List.mem_cons, List.not_mem_nil, or_false] at member
  rcases member with rfl | rfl | rfl | rfl | rfl | rfl | rfl | rfl | rfl | rfl | rfl
  · exact sameIn_foldConstants?_truths node rewrites
  · exact sameIn_constantToRight?_truths node rewrites.1 rewrites.2
  · exact sameIn_logicalConstant?_truths node rewrites
  · simp [Rule.Rewrites, addZero?, asBinary?, Expr.dtype, notInteger] at rewrites
  · simp [Rule.Rewrites, subtractSelf?, Expr.dtype, notInteger] at rewrites
  · simp [Rule.Rewrites, multiplyOne?, asBinary?, Expr.dtype, notInteger] at rewrites
  · simp [Rule.Rewrites, multiplyZero?, Expr.dtype, notInteger] at rewrites
  · simp [Rule.Rewrites, modOne?, asBinary?, Expr.dtype, notInteger] at rewrites
  · simp [Rule.Rewrites, divideSelf?, asBinary?, Expr.dtype, notInteger] at rewrites
  · exact sameIn_sameOperands?_truths node rewrites
  · simp [Rule.Rewrites, knownValue?, Expr.dtype, notInteger] at rewrites

end Reduction.Identities

/-! ### Comparisons -/

namespace Reduction.Comparisons

open IndexAlgebra.Expr

attribute [local simp] Option.bind_eq_some_iff Option.guard_eq_some'

variable {check : RangeCheck} [check.Lawful] {env : Environment} {answers : Answers}
  {result lhs rhs : Expr} {op : BinaryOp} {dtype : DataType}

theorem sameIn_normalize?_truths (node : OverTruths env dtype op lhs rhs result)
    (applies : normalize? (binary dtype op lhs rhs) = some result) :
    SameIn check env (binary dtype op lhs rhs) result := by
  have swapped {op' : BinaryOp} (flips : op.flip? = some op')
      (builds : binary? op' rhs lhs = some result) :
      SameIn check env (binary dtype op lhs rhs) result := by
    obtain ⟨rfl, -⟩ := binary?_eq_some node.types.1.symm builds
    refine node.toAlike.sameIn_binary fun isX isY isP isQ made made' => ?_
    cases isX.symm.trans isQ
    cases isY.symm.trans isP
    exact Option.some.inj (made.symm.trans ((BinaryOp.onLane_of_flip? flips).symm.trans made'))
  cases op
  case gt => exact swapped rfl applies
  case ge => exact swapped rfl applies
  case lt | le => simp [normalize?, asBinary?, node.left_not_isInteger] at applies
  all_goals cases applies

theorem sameIn_boolEquality?_truths (node : OverTruths env dtype op lhs rhs result)
    (applies : boolEquality? (binary dtype op lhs rhs) = some result) :
    SameIn check env (binary dtype op lhs rhs) result := by
  simp [boolEquality?, asBinary?] at applies
  obtain ⟨known, constType, rfl, isEquality, applies⟩ : ∃ known constType,
      rhs = boolConst constType known ∧ (op = .eq ∨ op = .ne) ∧
        (if known = (op == .eq) then some lhs else not? lhs) = some result := by
    rcases applies with ⟨⟨constType, rfl⟩, isEquality, chosen⟩ | ⟨⟨constType, rfl⟩, isEquality, chosen⟩
    · exact ⟨false, constType, rfl, isEquality, by rcases isEquality with rfl | rfl <;> exact chosen⟩
    · exact ⟨true, constType, rfl, isEquality, by rcases isEquality with rfl | rfl <;> exact chosen⟩
  have equality (x : Bool) : op.onLane x.toNat known.toNat =
      some ((if known = (op == .eq) then x else !x).toNat : Int) := by
    rcases isEquality with rfl | rfl <;> cases known <;> cases x <;> rfl
  refine node.sameIn_of_made fun {_ x y first second} isX isY made isSecond => ?_
  rw [valueIn_boolConst isY, equality] at made
  refine (Option.some.inj made).symm.trans ?_
  split at applies
  next same =>
    cases applies
    rw [if_pos same]
    exact Option.some.inj (isX.symm.trans isSecond)
  next different =>
    obtain ⟨-, rfl⟩ := not?_eq_some applies
    rw [if_neg different]
    obtain ⟨truth, isTruth, rfl⟩ := node.resultRegular.valueIn_not node.truthful isSecond
    rw [truth_of_toNat_eq (Option.some.inj (isX.symm.trans isTruth))]

/-- What a rule for comparisons makes of a node over truth values has the value of the node. -/
theorem sameIn_of_rewrites_truths {rule : Rule} (member : rule ∈ rules)
    (node : OverTruths env dtype op lhs rhs result)
    (rewrites : rule.Rewrites answers (binary dtype op lhs rhs) result) :
    SameIn check env (binary dtype op lhs rhs) result := by
  have notInteger : asIntComparison? (binary dtype op lhs rhs) = none := by
    simp [asIntComparison?, asBinary?, node.left_not_isInteger]
  obtain ⟨left, right⟩ := node.asInt?_eq_none
  have notConst : againstConst? (binary dtype op lhs rhs) = none := by
    cases op <;> simp [againstConst?, asBinary?, left, right]
  simp only [rules, Rule.pure, List.mem_cons, List.not_mem_nil, or_false] at member
  rcases member with rfl | rfl | rfl | rfl | rfl | rfl | rfl | rfl | rfl
  · simp [Rule.Rewrites, compareDifference?, notInteger] at rewrites
  · exact sameIn_normalize?_truths node rewrites
  · exact sameIn_boolEquality?_truths node rewrites
  · simp [Rule.Rewrites, comparisonOperands?, notInteger] at rewrites
  · simp [Rule.Rewrites, moveConstant?, notInteger] at rewrites
  · simp [Rule.Rewrites, divideComparison?, notInteger] at rewrites
  · simp [Rule.Rewrites, cancelComparison?, notInteger] at rewrites
  · simp [Rule.Rewrites, dropRemainder?, notConst] at rewrites
  · simp [Rule.Rewrites, compareFloorDiv?, notConst] at rewrites

end Reduction.Comparisons

/-! ### Conditions -/

namespace Reduction.Conditions

open IndexAlgebra.Expr

attribute [local simp] Option.bind_eq_some_iff Option.guard_eq_some'

variable {check : RangeCheck} [check.Lawful] {env : Environment} {answers : Answers}
  {expr result cond other lhs rhs : Expr} {op : BinaryOp} {dtype : DataType} {index : Nat}

/-- A comparison and its negation are opposite truth values. -/
theorem onLane_of_negate? {negated : BinaryOp} (negates : op.negate? = some negated) (left right : Int) :
    ∃ truth : Bool, op.onLane left right = some (truth.toNat : Int) ∧
      negated.onLane left right = some ((!truth).toNat : Int) := by
  cases op <;> cases negates <;> refine ⟨_, rfl, ?_⟩ <;>
    simp only [BinaryOp.onLane, ← decide_not, not_lt, not_le, ne_eq, not_not]

/-- The negation of a condition is its opposite in every lane. -/
theorem opposite_of_negation? (truthful : env.Truthful) (regular : cond.Regular)
    (otherRegular : other.Regular) (negates : negation? cond = some other) {first second : Int}
    (isFirst : cond.valueIn check env index = some first)
    (isSecond : other.valueIn check env index = some second) :
    ∃ truth : Bool, first = truth.toNat ∧ second = (!truth).toNat := by
  have ofNot (builds : not? cond = some other) :
      ∃ truth : Bool, first = truth.toNat ∧ second = (!truth).toNat := by
    obtain ⟨-, rfl⟩ := not?_eq_some builds
    obtain ⟨truth, isTruth, rfl⟩ := otherRegular.valueIn_not truthful isSecond
    exact ⟨truth, Option.some.inj (isFirst.symm.trans isTruth), rfl⟩
  unfold negation? at negates
  split at negates
  next dtype value =>
    cases negates
    obtain ⟨truth, isTruth, rfl⟩ := regular.valueIn_not truthful isFirst
    refine ⟨!truth, rfl, ?_⟩
    rw [Bool.not_not]
    exact Option.some.inj (isSecond.symm.trans isTruth)
  next dtype op lhs rhs =>
    have isLhs : lhs.Regular := regular.child (by simp [children])
    have typed := regular.typed
    rw [WellTyped] at typed
    obtain ⟨-, -, same, -⟩ := typed
    obtain ⟨x, isX, y, isY, made⟩ := regular.valueIn_binary truthful isFirst
    rw [if_neg (by simp [isLhs.notFloat])] at negates
    -- A comparison is negated with its sides in their order, or in the other one.
    have inOrder {negated : BinaryOp} (isNegated : op.negate? = some negated)
        (builds : binary? negated lhs rhs = some other) :
        ∃ truth : Bool, first = truth.toNat ∧ second = (!truth).toNat := by
      obtain ⟨rfl, -⟩ := binary?_eq_some same builds
      obtain ⟨x', isX', y', isY', made'⟩ := otherRegular.valueIn_binary truthful isSecond
      cases isX.symm.trans isX'
      cases isY.symm.trans isY'
      obtain ⟨truth, holds, fails⟩ := onLane_of_negate? isNegated x y
      exact ⟨truth, Option.some.inj (made.symm.trans holds), Option.some.inj (made'.symm.trans fails)⟩
    have swapped {negated flipped : BinaryOp} (isNegated : op.negate? = some negated)
        (flips : negated.flip? = some flipped) (builds : binary? flipped rhs lhs = some other) :
        ∃ truth : Bool, first = truth.toNat ∧ second = (!truth).toNat := by
      obtain ⟨rfl, -⟩ := binary?_eq_some same.symm builds
      obtain ⟨y', isY', x', isX', made'⟩ := otherRegular.valueIn_binary truthful isSecond
      cases isX.symm.trans isX'
      cases isY.symm.trans isY'
      obtain ⟨truth, holds, fails⟩ := onLane_of_negate? isNegated x y
      rw [← BinaryOp.onLane_of_flip? flips] at fails
      exact ⟨truth, Option.some.inj (made.symm.trans holds), Option.some.inj (made'.symm.trans fails)⟩
    split at negates
    case h_1 => exact swapped rfl rfl negates
    case h_2 => exact swapped rfl rfl negates
    case h_3 => exact inOrder rfl negates
    case h_4 => exact inOrder rfl negates
    case h_5 => exact inOrder rfl negates
    case h_6 => exact inOrder rfl negates
    case h_7 => exact ofNot negates
  next => exact ofNot negates

/-! ### Negations -/

omit [check.Lawful] in
theorem sameIn_doubleNegation? (alike : Alike env expr result)
    (applies : doubleNegation? expr = some result) : SameIn check env expr result := by
  simp [doubleNegation?] at applies
  obtain ⟨dtype', dtype, rfl⟩ := applies
  have isInner : (not dtype' result).Regular := alike.regular.child (by simp [children])
  refine alike.sameIn fun {_ first second} isFirst isSecond => ?_
  obtain ⟨truth, isTruth, rfl⟩ := alike.regular.valueIn_not alike.truthful isFirst
  obtain ⟨truth', isTruth', equal⟩ := isInner.valueIn_not alike.truthful isTruth
  rw [truth_of_toNat_eq equal, Bool.not_not]
  exact Option.some.inj (isTruth'.symm.trans isSecond)

omit [check.Lawful] in
/-- What is opposite to the operand of a negation has the value of the negation. -/
theorem sameIn_of_opposite (alike : Alike env (not dtype cond) result)
    (opposite : ∀ {index} {truth : Bool} {second : Int},
      cond.valueIn check env index = some (truth.toNat : Int) →
      result.valueIn check env index = some second → second = (!truth).toNat) :
    SameIn check env (not dtype cond) result := by
  refine alike.sameIn fun {_ first second} isFirst isSecond => ?_
  obtain ⟨truth, isTruth, rfl⟩ := alike.regular.valueIn_not alike.truthful isFirst
  exact (opposite isTruth isSecond).symm

theorem sameIn_negateComparison? (alike : Alike env expr result)
    (applies : negateComparison? expr = some result) : SameIn check env expr result := by
  simp [negateComparison?] at applies
  obtain ⟨op, lhs, rhs, condType, ⟨dtype, rfl⟩, -, negates⟩ := applies
  have isCond : (binary condType op lhs rhs).Regular := alike.regular.child (by simp [children])
  refine sameIn_of_opposite alike fun {_ truth second} isTruth isSecond => ?_
  obtain ⟨truth', same, rfl⟩ :=
    opposite_of_negation? alike.truthful isCond alike.resultRegular negates isTruth isSecond
  rw [truth_of_toNat_eq same]

theorem sameIn_deMorgan? (alike : Alike env expr result)
    (applies : deMorgan? expr = some result) : SameIn check env expr result := by
  simp [deMorgan?] at applies
  obtain ⟨op, a, b, ⟨condType, dtype, rfl⟩, isLogical, notA, buildsA, notB, buildsB, builds⟩ := applies
  obtain ⟨-, rfl⟩ := not?_eq_some buildsA
  obtain ⟨-, rfl⟩ := not?_eq_some buildsB
  have isCond : (binary condType op a b).Regular := alike.regular.child (by simp [children])
  have typed := isCond.typed
  rw [WellTyped] at typed
  obtain ⟨-, -, same, -⟩ := typed
  obtain ⟨rfl, -⟩ := binary?_eq_some (by exact same) builds
  have isNotA : (not a.dtype a).Regular := alike.resultRegular.child (by simp [children])
  have isNotB : (not b.dtype b).Regular := alike.resultRegular.child (by simp [children])
  refine sameIn_of_opposite alike fun {_ truth second} isTruth isSecond => ?_
  obtain ⟨x, isX, y, isY, made⟩ := isCond.valueIn_binary alike.truthful isTruth
  obtain ⟨p, isP, q, isQ, made'⟩ := alike.resultRegular.valueIn_binary alike.truthful isSecond
  obtain ⟨first, isFirst, rfl⟩ := isNotA.valueIn_not alike.truthful isP
  obtain ⟨second, isSecond, rfl⟩ := isNotB.valueIn_not alike.truthful isQ
  cases isX.symm.trans isFirst
  cases isY.symm.trans isSecond
  cases op <;> cases isLogical <;> cases first <;> cases second <;> cases truth <;> cases made <;>
    cases made' <;> rfl

/-! ### Two conditions -/

theorem sameIn_complement? (alike : Alike env expr result)
    (applies : complement? expr = some result) : SameIn check env expr result := by
  simp [complement?] at applies
  obtain ⟨op, a, b, ⟨dtype, rfl⟩, ⟨isLogical, negates⟩, rfl⟩ := applies
  have isA : a.Regular := alike.regular.child (by simp [children])
  have isB : b.Regular := alike.regular.child (by simp [children])
  have isBool : (binary dtype op a b).dtype.isBool = true := by
    have typed := alike.regular.typed
    rw [WellTyped] at typed
    obtain ⟨-, -, -, rfl, logical⟩ := typed
    rw [Expr.dtype, binaryType, if_neg (by simp [isLogical])]
    exact logical isLogical
  have constant : Yields check env _ _ _ := yields_ofInt alike.truthful.kinded alike.regular.typed.valid
    alike.regular.notFloat (DataType.fits_truth isBool (op == .or))
  refine alike.sameIn fun {index first second} isFirst isSecond => ?_
  obtain ⟨x, isX, y, isY, made⟩ := alike.regular.valueIn_binary alike.truthful isFirst
  obtain ⟨truth, rfl, rfl⟩ := opposite_of_negation? alike.truthful isA isB negates isX isY
  cases constant.only index second isSecond
  cases op <;> cases isLogical <;> cases truth <;> exact (Option.some.inj made).symm

/-! ### Known conditions -/

omit [check.Lawful] in
/-- A scalar condition that has a value is a truth value. -/
theorem exists_bool_of_scalar (truthful : env.Truthful) (regular : cond.Regular)
    (isType : cond.dtype = .bool) {value : Value} (evaluated : cond.evaluate check env = some value) :
    ∃ truth : Bool, value = .bool truth ∧ cond.valueIn check env 0 = some (truth.toNat : Int) := by
  have ofKind := (evaluate_kinded regular.typed truthful.kinded evaluated).ofKind
    (congrArg DataType.lanes isType)
  have onlyLane : value.toLanes cond.lanes = [value] := by
    rw [Expr.lanes, isType]
    exact ofKind.toLanes_one
  obtain ⟨truth, rfl⟩ := regular.hasTruths truthful (by rw [isType]; rfl) value evaluated value
    (by rw [onlyLane]; exact List.mem_singleton_self value)
  refine ⟨truth, rfl, valueIn_eq_some.mpr ⟨_, evaluated, .bool truth, ?_, rfl⟩⟩
  rw [onlyLane, List.getElem?_cons_zero]

/-- A known condition stands for itself, and against its negation. -/
theorem sameIn_knownLiteral? {evidence : Evidence} (alike : Alike env expr result)
    (known : ∀ cond ∈ evidence.truths, cond.Regular ∧ cond.evaluate check env = some (.bool true))
    (applies : knownLiteral? evidence expr = some result) : SameIn check env expr result := by
  obtain ⟨_, guarded, applies⟩ := Option.bind_eq_some_iff.mp applies
  obtain ⟨value, decides, equal⟩ := Option.bind_eq_some_iff.mp applies
  cases equal
  rw [Option.guard_eq_some', Bool.and_eq_true, Bool.and_eq_true] at guarded
  obtain ⟨⟨isBool, scalar⟩, -⟩ := guarded
  have isType : expr.dtype = .bool :=
    DataType.eq_bool alike.regular.typed.valid isBool (lanes_eq_one_of_isScalar scalar)
  obtain ⟨cond, member, decides⟩ := List.exists_of_findSome?_eq_some decides
  obtain ⟨isCond, isTrue⟩ := known cond member
  intro first second isFirst isSecond
  cases isSecond
  split at decides
  next same =>
    cases decides
    subst same
    exact Option.some.inj (isFirst.symm.trans isTrue)
  split at decides
  next negates =>
    cases decides
    obtain ⟨truth, rfl, isTruth⟩ := exists_bool_of_scalar alike.truthful alike.regular isType isFirst
    have someLanes : 0 < cond.lanes := isCond.typed.valid.2.2.1
    have holds : cond.valueIn check env 0 = some 1 := valueIn_eq_some.mpr
      ⟨.bool true, isTrue, .bool true, List.getElem?_replicate_of_lt someLanes, rfl⟩
    obtain ⟨truth', one, same⟩ :=
      opposite_of_negation? alike.truthful isCond alike.regular negates holds isTruth
    cases truth' with
    | false => cases one
    | true => rw [truth_of_toNat_eq same, Bool.not_true]
  next => cases decides

omit [check.Lawful] in
theorem exists_binary_of_asRanges? {evidence : Evidence} {ranges : BinaryOp × Bound × Bound}
    (areRanges : asRanges? evidence expr = some ranges) :
    ∃ dtype op a b, expr = binary dtype op a b := by
  obtain ⟨⟨op, a, b⟩, isBinary, -⟩ := Option.bind_eq_some_iff.mp areRanges
  obtain ⟨dtype, rfl⟩ := asBinary?_eq_some.mp isBinary
  exact ⟨dtype, op, a, b, rfl⟩

/-- What a rule makes of a condition or of a negation has its value, if the ranges that conditions are
taken for tell them and the known conditions are true. -/
theorem sameIn_of_rewrites {rule : Rule} (member : rule ∈ rules ++ knownRules)
    (alike : Alike env expr result) (reliable : answers.evidence.Reliable check env)
    (rewrites : rule.Rewrites answers expr result) : SameIn check env expr result := by
  simp only [rules, knownRules, Rule.pure, List.cons_append, List.nil_append, List.mem_cons,
    List.not_mem_nil, or_false] at member
  rcases member with rfl | rfl | rfl | rfl | rfl | rfl | rfl
  · exact sameIn_doubleNegation? alike rewrites
  · exact sameIn_negateComparison? alike rewrites
  · exact sameIn_deMorgan? alike rewrites
  · exact sameIn_complement? alike rewrites
  · obtain ⟨_, areRanges, -⟩ := Option.bind_eq_some_iff.mp rewrites
    obtain ⟨dtype, op, a, b, rfl⟩ := exists_binary_of_asRanges? areRanges
    intro first second isFirst isSecond
    exact Option.some.inj ((evaluate_contradiction? reliable.range reliable.range alike.regular.typed
      rewrites isFirst).symm.trans isSecond)
  · obtain ⟨⟨op, a, b⟩, isBinary, -⟩ := Option.bind_eq_some_iff.mp rewrites
    obtain ⟨dtype, rfl⟩ := asBinary?_eq_some.mp isBinary
    intro first second isFirst isSecond
    exact Option.some.inj ((evaluate_mergeRanges? reliable.range reliable.range alike.regular.typed
      rewrites isFirst).symm.trans isSecond)
  · exact sameIn_knownLiteral? alike reliable.truths rewrites

end Reduction.Conditions

end IndexAlgebra
