/-
This file proves that the rules for comparisons of integers are exact. A comparison is decided by the
difference of its sides, so that a term may be moved from one side to the other, and a common factor
may be cancelled if the sides are swapped for a negative one. Where a constant is divided, it is
rounded so that the same integers are on either side of it.
-/
import IndexAlgebra.Proofs.Exactness
import IndexAlgebra.Proofs.Fits.Comparisons

namespace IndexAlgebra

/-! ### Comparisons of integers -/

namespace BinaryOp

variable {op : BinaryOp} {left right left' right' value factor quotient : Int}

/-- A comparison depends on the difference of its sides alone. -/
theorem onLane_congr_sub (isComparison : op.isComparison = true)
    (same : left - right = left' - right') : op.onLane left right = op.onLane left' right' := by
  cases op with
  | eq => simp only [onLane, show left = right ↔ left' = right' by omega]
  | ne => simp only [onLane, ne_eq, show left = right ↔ left' = right' by omega]
  | lt => simp only [onLane, show left < right ↔ left' < right' by omega]
  | le => simp only [onLane, show left ≤ right ↔ left' ≤ right' by omega]
  | gt => simp only [onLane, show right < left ↔ right' < left' by omega]
  | ge => simp only [onLane, show right ≤ left ↔ right' ≤ left' by omega]
  | _ => cases isComparison

/-- Equality does not depend on the order of its sides. -/
theorem onLane_congr_neg (isEquality : op = .eq ∨ op = .ne)
    (same : left - right = right' - left') : op.onLane left right = op.onLane left' right' := by
  rcases isEquality with rfl | rfl
  · simp only [onLane, show left = right ↔ left' = right' by omega]
  · simp only [onLane, ne_eq, show left = right ↔ left' = right' by omega]

theorem onLane_lt_congr (same : left < right ↔ left' < right') :
    lt.onLane left right = lt.onLane left' right' := by
  simp only [onLane, same]

theorem onLane_le_congr (same : right < left ↔ right' < left') :
    le.onLane left right = le.onLane left' right' := by
  simp only [onLane, ← not_lt, same]

/-- A positive common factor of both sides may be cancelled. -/
theorem onLane_mul_of_pos (isComparison : op.isComparison = true) (positive : 0 < factor) :
    op.onLane (left * factor) (right * factor) = op.onLane left right := by
  have less (first second : Int) : first * factor < second * factor ↔ first < second :=
    Int.mul_lt_mul_right positive
  have lessOrEqual (first second : Int) : first * factor ≤ second * factor ↔ first ≤ second :=
    Int.mul_le_mul_right positive
  cases op with
  | eq | ne => simp only [onLane, ne_eq, mul_left_inj' positive.ne']
  | lt | le | gt | ge => simp only [onLane, less, lessOrEqual]
  | _ => cases isComparison

/-- The sides are swapped when a negative common factor is cancelled. -/
theorem onLane_mul_of_neg (isComparison : op.isComparison = true) (negative : factor < 0) :
    op.onLane (left * factor) (right * factor) = op.onLane right left :=
  (onLane_congr_sub isComparison (by ring)).trans
    (onLane_mul_of_pos isComparison (Int.neg_pos.mpr negative))

/-- A common factor other than zero may be cancelled in an equality. -/
theorem onLane_mul_of_ne_zero (isEquality : op = .eq ∨ op = .ne) (nonzero : factor ≠ 0) :
    op.onLane (left * factor) (right * factor) = op.onLane left right := by
  rcases isEquality with rfl | rfl <;> simp only [onLane, ne_eq, mul_left_inj' nonzero]

/-- A comparison of the swapped sides. -/
theorem onLane_of_flip? {flipped : BinaryOp} (flips : op.flip? = some flipped) :
    flipped.onLane right left = op.onLane left right := by
  cases op <;> cases flips
  case eq => simp only [onLane, eq_comm]
  case ne => simp only [onLane, ne_comm]
  case lt | le | gt | ge => rfl

/-- The truth value of a comparison that the relation of its sides decides. -/
theorem onLane_of_decides? {relation : Relation} {truth : Bool} (holds : relation.Holds left right)
    (decides : relation.decides? op = some truth) : op.onLane left right = some truth.toNat := by
  suffices verdict : some (truth.toNat : Int) = op.onLane left right from verdict.symm
  cases op <;> cases relation <;> cases decides <;>
    simp only [Relation.Holds, onLane, ne_eq] at holds ⊢ <;>
    exact congrArg (fun truth : Bool => some (truth.toNat : Int)) (by simp; omega)

end BinaryOp

/-! ### Truth values -/

/-- A truth value is told by its integer. -/
theorem truth_of_toNat_eq {first second : Bool} (same : (first.toNat : Int) = second.toNat) :
    first = second := by
  cases first <;> cases second <;> first | rfl | cases same

/-- A comparison of two scalars is a truth value. -/
theorem Scalar.exists_bool_of_comparison {element : DataType} {op : BinaryOp} {left right lane : Value}
    (isComparison : op.isComparison = true)
    (computed : Scalar.binary? check element op left right = some lane) :
    ∃ truth, lane = .bool truth := by
  have ofInts {first second : Int}
      (computed : Scalar.binaryInt? check element op first second = some lane) :
      ∃ truth, lane = .bool truth := by
    rcases Expr.binaryInt?_kind computed with ⟨isArithmetic, -⟩ | ⟨-, isTruth⟩
    · cases (beq_iff_eq.mp isComparison).symm.trans isArithmetic
    · exact isTruth
  cases left <;> cases right <;> try contradiction
  case int.int => exact ofInts computed
  case bool.bool =>
    unfold Scalar.binary? at computed
    cases op
    case eq | ne => exact ⟨_, (Option.some.inj computed).symm⟩
    case lt | le | gt | ge => exact ofInts computed
    all_goals cases isComparison
  case float.float =>
    cases op
    case eq | ne | lt | le | gt | ge => exact ⟨_, (Option.some.inj computed).symm⟩
    all_goals cases isComparison

namespace Expr

variable {check : RangeCheck} [check.Lawful] {env : Environment} {expr result lhs rhs : Expr}
  {op : BinaryOp} {dtype : DataType}

/-- The value of the expression has a truth value in every lane. -/
def HasTruths (check : RangeCheck) (env : Environment) (expr : Expr) : Prop :=
  ∀ value, expr.evaluate check env = some value →
    ∀ lane ∈ value.toLanes expr.lanes, ∃ truth, lane = .bool truth

omit [check.Lawful] in
theorem WellTyped.hasTruths (typed : (binary dtype op lhs rhs).WellTyped) (kinded : env.Kinded)
    (isComparison : op.isComparison = true) : (binary dtype op lhs rhs).HasTruths check env := by
  intro value evaluated lane member
  obtain ⟨left, right, -, -, computed⟩ := typed.toLanes_of_eval_binary kinded evaluated
  obtain ⟨_, -, isLane⟩ := exists_of_mem_mapM computed member
  exact Scalar.exists_bool_of_comparison isComparison isLane

omit [check.Lawful] in
theorem hasTruths_ofInt (isBool : dtype.isBool = true) (value : Int) :
    (ofInt dtype value).HasTruths check env := by
  intro found evaluated lane member
  have notFloat := DataType.isFloat_of_isBool isBool
  unfold ofInt scalarOfInt at evaluated
  simp only [DataType.isFloat_element, DataType.isBool_element, isBool, notFloat, Bool.false_eq_true,
    if_false, if_true] at evaluated
  split at evaluated <;> cases evaluated <;> exact ⟨_, List.eq_of_mem_replicate member⟩

/-- The second expression has the value of the first one, which is a truth value. -/
structure Settles (check : RangeCheck) (env : Environment) (expr result : Expr) : Prop where
  agrees : Agrees check env expr result
  truths : result.HasTruths check env

omit [check.Lawful] in
theorem Settles.eq (settles : Settles check env expr result) (typed : expr.WellTyped)
    (kinded : env.Kinded)
    (truths : expr.HasTruths check env) {first second : Value}
    (isFirst : expr.evaluate check env = some first)
    (isSecond : result.evaluate check env = some second) : first = second := by
  refine settles.agrees.eq_of_lanes typed kinded isFirst isSecond fun left isLeft right isRight => ?_
  obtain ⟨leftTruth, rfl⟩ := truths first isFirst left isLeft
  obtain ⟨rightTruth, rfl⟩ := settles.truths second isSecond right
    (by rwa [Expr.lanes, settles.agrees.isType])
  exact ⟨leftTruth.toNat, rightTruth.toNat, rfl, rfl,
    fun same => congrArg Value.bool (truth_of_toNat_eq same)⟩

/-! ### Comparisons -/

/-- The node compares two integers in every lane. -/
structure Compares (check : RangeCheck) (env : Environment) (dtype : DataType) (op : BinaryOp)
    (lhs rhs : Expr) : Prop where
  typed : (binary dtype op lhs rhs).WellTyped
  kinded : env.Kinded
  isComparison : op.isComparison = true
  isInteger : lhs.dtype.isInteger = true

namespace Compares

variable {op' : BinaryOp} {first second term : Expr} {value : Int}

theorem parts (compares : Compares check env dtype op lhs rhs) :
    Parts check env op (binary dtype op lhs rhs) lhs.dtype lhs rhs :=
  compares.typed.parts compares.kinded (DataType.isFloat_of_isInteger compares.isInteger)

omit [check.Lawful] in
theorem isType (compares : Compares check env dtype op lhs rhs)
    (isComparison : op'.isComparison = true) :
    binaryType op' lhs.dtype = dtype := by
  have typed := compares.typed
  rw [WellTyped] at typed
  rw [typed.2.2.2.1, binaryType, binaryType, if_pos isComparison, if_pos compares.isComparison]

theorem same (compares : Compares check env dtype op lhs rhs) : rhs.dtype = lhs.dtype :=
  compares.parts.isSecond.isType

omit [check.Lawful] in
/-- The value of a comparison of scalars is the truth value of its only lane. -/
theorem exists_truth (compares : Compares check env dtype op lhs rhs) (scalar : lhs.dtype.lanes = 1)
    {found : Value} (evaluated : (binary dtype op lhs rhs).evaluate check env = some found) :
    ∃ truth : Bool, found = .bool truth ∧
      (binary dtype op lhs rhs).valueIn check env 0 = some (truth.toNat : Int) := by
  have single : dtype.lanes = 1 := by
    rw [← compares.isType compares.isComparison, lanes_binaryType, scalar]
  have isKinded : found.Kinded dtype := evaluate_kinded compares.typed compares.kinded evaluated
  have onlyLane : found.toLanes (binary dtype op lhs rhs).lanes = [found] := by
    rw [Expr.lanes, Expr.dtype, single]
    exact (isKinded.ofKind single).toLanes_one
  obtain ⟨truth, rfl⟩ := compares.typed.hasTruths compares.kinded compares.isComparison found evaluated
    found (by rw [onlyLane]; exact List.mem_singleton_self found)
  refine ⟨truth, rfl, valueIn_eq_some.mpr ⟨_, evaluated, .bool truth, ?_, rfl⟩⟩
  rw [onlyLane, List.getElem?_cons_zero]

/-- A comparison of two terms that holds in the same lanes. -/
theorem settles_binary? (compares : Compares check env dtype op lhs rhs) {left right : Nat → Option Int}
    (isComparison : op'.isComparison = true) (isFirst : Yields check env first lhs.dtype left)
    (isSecond : Yields check env second lhs.dtype right)
    (builds : binary? op' first second = some result)
    (reads : ∀ {index x y}, lhs.valueIn check env index = some x → rhs.valueIn check env index = some y →
      ∃ a, left index = some a ∧ ∃ b, right index = some b ∧ op'.onLane a b = op.onLane x y) :
    Settles check env (binary dtype op lhs rhs) result := by
  have notFloat := DataType.isFloat_of_isInteger compares.isInteger
  have yields := isFirst.binary? isSecond compares.kinded notFloat builds
  obtain ⟨rfl, -⟩ := binary?_eq_some (isFirst.isType.trans isSecond.isType.symm) builds
  refine ⟨yields.agrees (compares.isType isComparison) fun index number isNumber => ?_,
    yields.typed.hasTruths compares.kinded isComparison⟩
  obtain ⟨x, isX, y, isY, made⟩ := compares.parts.made isNumber
  obtain ⟨a, isA, b, isB, same⟩ := reads isX isY
  rw [isA, isB]
  exact same.trans made

/-- The same comparison of two terms with the same difference. -/
theorem settles_sameDifference (compares : Compares check env dtype op lhs rhs)
    {left right : Nat → Option Int} (isFirst : Yields check env first lhs.dtype left)
    (isSecond : Yields check env second lhs.dtype right) (builds : binary? op first second = some result)
    (reads : ∀ {index x y}, lhs.valueIn check env index = some x → rhs.valueIn check env index = some y →
      ∃ a, left index = some a ∧ ∃ b, right index = some b ∧ a - b = x - y) :
    Settles check env (binary dtype op lhs rhs) result := by
  refine compares.settles_binary? compares.isComparison isFirst isSecond builds fun isX isY => ?_
  obtain ⟨a, isA, b, isB, same⟩ := reads isX isY
  exact ⟨a, isA, b, isB, BinaryOp.onLane_congr_sub compares.isComparison same⟩

/-- A comparison with a constant on the right that holds in the same lanes. -/
theorem settles_binaryConst? (compares : Compares check env dtype op lhs rhs)
    (isComparison : op'.isComparison = true)
    (isTerm : Yields check env term lhs.dtype (term.valueIn check env))
    (builds : binaryConst? op' term value = some result)
    (reads : ∀ {index x y}, lhs.valueIn check env index = some x → rhs.valueIn check env index = some y →
      ∃ a, term.valueIn check env index = some a ∧ op'.onLane a value = op.onLane x y) :
    Settles check env (binary dtype op lhs rhs) result := by
  obtain ⟨constant, isConstant, builds⟩ := Option.bind_eq_some_iff.mp builds
  have constant := isTerm.constantLike? compares.kinded isConstant
  refine compares.settles_binary? isComparison isTerm constant builds fun isX isY => ?_
  obtain ⟨a, isA, same⟩ := reads isX isY
  exact ⟨a, isA, value, rfl, same⟩

/-- A comparison with a constant on the left that holds in the same lanes. -/
theorem settles_constBinary? (compares : Compares check env dtype op lhs rhs)
    (isComparison : op'.isComparison = true)
    (isTerm : Yields check env term lhs.dtype (term.valueIn check env))
    (builds : constBinary? op' value term = some result)
    (reads : ∀ {index x y}, lhs.valueIn check env index = some x → rhs.valueIn check env index = some y →
      ∃ b, term.valueIn check env index = some b ∧ op'.onLane value b = op.onLane x y) :
    Settles check env (binary dtype op lhs rhs) result := by
  obtain ⟨constant, isConstant, builds⟩ := Option.bind_eq_some_iff.mp builds
  have constant := isTerm.constantLike? compares.kinded isConstant
  refine compares.settles_binary? isComparison constant isTerm builds fun isX isY => ?_
  obtain ⟨b, isB, same⟩ := reads isX isY
  exact ⟨value, rfl, b, isB, same⟩

/-- A truth value that the comparison has in every lane. -/
theorem settles_ofInt (compares : Compares check env dtype op lhs rhs) {truth : Bool}
    (reads : ∀ {index x y}, lhs.valueIn check env index = some x → rhs.valueIn check env index = some y →
      op.onLane x y = some (truth.toNat : Int)) :
    Settles check env (binary dtype op lhs rhs) (ofInt dtype truth.toNat) := by
  have isBool : dtype.isBool = true := by
    rw [← compares.isType compares.isComparison, binaryType, if_pos compares.isComparison]
    rfl
  have fits : dtype.fits truth.toNat = true :=
    Value.fits_of_mem_ints (show (Value.bool truth).InLane dtype from isBool)
      (by rw [Value.ints_bool, List.mem_singleton])
  have constant : Yields check env _ _ _ := yields_ofInt compares.kinded compares.typed.valid
    (DataType.isFloat_of_isBool isBool) fits
  refine ⟨constant.agrees rfl fun index number isNumber => ?_, hasTruths_ofInt isBool _⟩
  obtain ⟨x, isX, y, isY, made⟩ := compares.parts.made isNumber
  exact (reads isX isY).symm.trans made

end Compares

end Expr

namespace Reduction.Comparisons

open IndexAlgebra.Expr

attribute [local simp] Option.bind_eq_some_iff Option.guard_eq_some'

/-! ### Constants that are rounded -/

section Rounding

variable {value factor number rest : Int}

theorem lt_ceilDiv_iff (positive : 0 < factor) :
    number < ceilDiv value factor ↔ number * factor < value := by
  rw [ceilDiv, Int.fdiv_eq_ediv_of_nonneg _ positive.le, lt_neg, Int.ediv_lt_iff_lt_mul positive,
    Int.neg_mul, Int.neg_lt_neg_iff]

theorem fdiv_lt_iff_lt_mul (positive : 0 < factor) :
    value.fdiv factor < number ↔ value < number * factor := by
  rw [Int.fdiv_eq_ediv_of_nonneg _ positive.le, Int.ediv_lt_iff_lt_mul positive]

theorem fdiv_lt_iff_mul_lt (negative : factor < 0) :
    value.fdiv factor < number ↔ number * factor < value := by
  rw [← Int.neg_fdiv_neg, fdiv_lt_iff_lt_mul (Int.neg_pos.mpr negative), Int.mul_neg,
    Int.neg_lt_neg_iff]

/-- A remainder that is added to a multiple of a factor does not reach the next one. -/
theorem add_lt_mul_iff (positive : 0 < factor) (nonneg : 0 ≤ rest) (small : rest < factor) :
    number * factor + rest < value * factor ↔ number < value := by
  rw [← Int.ediv_lt_iff_lt_mul positive, Int.add_comm, Int.add_mul_ediv_right _ _ positive.ne',
    Int.ediv_eq_zero_of_lt nonneg small, Int.zero_add]

end Rounding

variable {check : RangeCheck} [check.Lawful] {env : Environment} {answers : Answers}
  {expr result lhs rhs : Expr} {op : BinaryOp}
  {dtype : DataType} {value : Int}

/-! ### Normal form -/

theorem settles_compareDifference? (compares : Compares check env dtype op lhs rhs)
    (applies : compareDifference? (binary dtype op lhs rhs) = some result) :
    Settles check env (binary dtype op lhs rhs) result := by
  simp [compareDifference?, asIntComparison?, asBinary?, compares.isComparison, compares.isInteger]
    at applies
  split at applies
  next isZero =>
    obtain ⟨constType, rfl⟩ := isInt_iff.mp isZero
    simp at applies
    obtain ⟨x, y, ⟨sumType, rfl⟩, builds⟩ := applies
    have difference := compares.parts.isFirst.parts compares.kinded compares.isInteger
    refine compares.settles_sameDifference difference.isFirst difference.isSecond builds
      fun isLeft isRight => ?_
    obtain ⟨a, isA, b, isB, made⟩ := difference.made isLeft
    cases made
    rw [valueIn_intConst isRight]
    exact ⟨a, isA, b, isB, by omega⟩
  next =>
    simp at applies
    obtain ⟨⟨constType, rfl⟩, x, y, ⟨sumType, rfl⟩, builds⟩ := applies
    have difference := compares.parts.isSecond.parts compares.kinded compares.isInteger
    refine compares.settles_sameDifference difference.isSecond difference.isFirst builds
      fun isLeft isRight => ?_
    obtain ⟨a, isA, b, isB, made⟩ := difference.made isRight
    cases made
    rw [valueIn_intConst isLeft]
    exact ⟨b, isB, a, isA, by omega⟩

theorem settles_normalize? (compares : Compares check env dtype op lhs rhs)
    (applies : normalize? (binary dtype op lhs rhs) = some result) :
    Settles check env (binary dtype op lhs rhs) result := by
  have isFirst := compares.parts.isFirst
  have isSecond := compares.parts.isSecond
  simp [normalize?, asBinary?] at applies
  split at applies
  · exact compares.settles_binary? rfl isSecond isFirst applies
      fun isLeft isRight => ⟨_, isRight, _, isLeft, rfl⟩
  · exact compares.settles_binary? rfl isSecond isFirst applies
      fun isLeft isRight => ⟨_, isRight, _, isLeft, rfl⟩
  · simp at applies
    obtain ⟨-, value, ⟨constType, rfl⟩, constant, isConstant, builds⟩ := applies
    have constant := isSecond.constantLike? compares.kinded isConstant
    refine compares.settles_binary? rfl isFirst constant builds fun {_ x y} isLeft isRight => ?_
    rw [valueIn_intConst isRight]
    refine ⟨x, isLeft, _, rfl, ?_⟩
    simp only [BinaryOp.onLane, Int.lt_add_one_iff]
  · simp at applies
    obtain ⟨-, value, ⟨constType, rfl⟩, constant, isConstant, builds⟩ := applies
    have constant := isFirst.constantLike? compares.kinded isConstant
    refine compares.settles_binary? rfl constant isSecond builds fun {_ x y} isLeft isRight => ?_
    rw [valueIn_intConst isLeft]
    refine ⟨_, rfl, y, isRight, ?_⟩
    simp only [BinaryOp.onLane, Int.add_one_le_iff]
  · cases applies

/-- No integer is compared with a truth value. -/
theorem boolEquality?_eq_none (compares : Compares check env dtype op lhs rhs) :
    boolEquality? (binary dtype op lhs rhs) = none := by
  have notBool : rhs.asBool? = none := by
    refine Option.eq_none_iff_forall_ne_some.mpr fun truth isConst => ?_
    obtain ⟨constType, rfl⟩ := asBool?_eq_some.mp isConst
    have typed := compares.parts.isSecond.typed
    have isInteger := compares.isInteger
    rw [WellTyped] at typed
    rw [← compares.same, Expr.dtype, typed] at isInteger
    cases isInteger
  simp [boolEquality?, asBinary?, notBool]

/-! ### Known order -/

theorem settles_knownComparison? {relation : Relation} (compares : Compares check env dtype op lhs rhs)
    (told : ∀ index left right, lhs.valueIn check env index = some left →
      rhs.valueIn check env index = some right →
      relation.Holds left right)
    (applies : knownComparison? relation (binary dtype op lhs rhs) = some result) :
    Settles check env (binary dtype op lhs rhs) result := by
  obtain ⟨truth, decides, equal⟩ := Option.bind_eq_some_iff.mp applies
  cases equal
  exact compares.settles_ofInt fun isLeft isRight =>
    BinaryOp.onLane_of_decides? (told _ _ _ isLeft isRight) decides

/-! ### Constants -/

theorem settles_moveLeftConstant? {constType : DataType}
    (compares : Compares check env dtype op lhs (intConst constType value))
    (applies : moveLeftConstant? op lhs value = some result) :
    Settles check env (binary dtype op lhs (intConst constType value)) result := by
  simp [moveLeftConstant?] at applies
  obtain ⟨sumOp, a, b, ⟨sumType, rfl⟩, applies⟩ := applies
  have sum := compares.parts.isFirst.parts compares.kinded compares.isInteger
  split at applies
  case h_1 c isConst | h_2 c isConst =>
    obtain ⟨innerType, rfl⟩ := asInt?_eq_some.mp isConst
    refine compares.settles_binaryConst? compares.isComparison sum.isFirst applies
      fun isLeft isRight => ?_
    obtain ⟨number, isNumber, made⟩ := sum.made_const isLeft
    cases made
    rw [valueIn_intConst isRight]
    exact ⟨number, isNumber, BinaryOp.onLane_congr_sub compares.isComparison (by omega)⟩
  next c isConst _ =>
    obtain ⟨innerType, rfl⟩ := asInt?_eq_some.mp isConst
    split at applies
    next isEquality =>
      refine compares.settles_binaryConst? compares.isComparison sum.isSecond applies
        fun isLeft isRight => ?_
      obtain ⟨number, isNumber, made⟩ := sum.made_const_left isLeft
      cases made
      rw [valueIn_intConst isRight]
      exact ⟨number, isNumber, BinaryOp.onLane_congr_neg isEquality (by omega)⟩
    next =>
      refine compares.settles_constBinary? compares.isComparison sum.isSecond applies
        fun isLeft isRight => ?_
      obtain ⟨number, isNumber, made⟩ := sum.made_const_left isLeft
      cases made
      rw [valueIn_intConst isRight]
      exact ⟨number, isNumber, BinaryOp.onLane_congr_sub compares.isComparison (by omega)⟩
  next => cases applies

theorem settles_moveRightConstant? {constType : DataType}
    (compares : Compares check env dtype op (intConst constType value) rhs)
    (applies : moveRightConstant? op value rhs = some result) :
    Settles check env (binary dtype op (intConst constType value) rhs) result := by
  simp [moveRightConstant?] at applies
  obtain ⟨sumOp, a, b, ⟨sumType, rfl⟩, applies⟩ := applies
  have sum := compares.parts.isSecond.parts compares.kinded compares.isInteger
  split at applies
  case h_1 c isConst | h_2 c isConst =>
    obtain ⟨innerType, rfl⟩ := asInt?_eq_some.mp isConst
    refine compares.settles_constBinary? compares.isComparison sum.isFirst applies
      fun isLeft isRight => ?_
    obtain ⟨number, isNumber, made⟩ := sum.made_const isRight
    cases made
    rw [valueIn_intConst isLeft]
    exact ⟨number, isNumber, BinaryOp.onLane_congr_sub compares.isComparison (by omega)⟩
  next c isConst _ =>
    obtain ⟨innerType, rfl⟩ := asInt?_eq_some.mp isConst
    refine compares.settles_binaryConst? compares.isComparison sum.isSecond applies
      fun isLeft isRight => ?_
    obtain ⟨number, isNumber, made⟩ := sum.made_const_left isRight
    cases made
    rw [valueIn_intConst isLeft]
    exact ⟨number, isNumber, BinaryOp.onLane_congr_sub compares.isComparison (by omega)⟩
  next => cases applies

theorem settles_moveConstant? (compares : Compares check env dtype op lhs rhs)
    (applies : moveConstant? (binary dtype op lhs rhs) = some result) :
    Settles check env (binary dtype op lhs rhs) result := by
  simp [moveConstant?, asIntComparison?, asBinary?] at applies
  obtain ⟨-, applies⟩ := applies
  split at applies
  next isConst =>
    obtain ⟨constType, rfl⟩ := asInt?_eq_some.mp isConst
    exact settles_moveLeftConstant? compares applies
  next isConst _ =>
    obtain ⟨constType, rfl⟩ := asInt?_eq_some.mp isConst
    exact settles_moveRightConstant? compares applies
  next => cases applies

/-- A product with a factor other than zero equals its multiples alone. -/
theorem settles_divideEquality? {constType productType factorType : DataType} {x : Expr} {factor : Int}
    (compares : Compares check env dtype op (binary productType .mul x (intConst factorType factor))
      (intConst constType value))
    (isEquality : op = .eq ∨ op = .ne) (nonzero : factor ≠ 0)
    (builds : (if value.tmod factor = 0 then binaryConst? op x (value.tdiv factor)
      else some (ofInt dtype (op == .ne).toNat)) = some result) :
    Settles check env (binary dtype op (binary productType .mul x (intConst factorType factor))
      (intConst constType value)) result := by
  have product := compares.parts.isFirst.parts compares.kinded compares.isInteger
  split at builds
  next divides =>
    refine compares.settles_binaryConst? compares.isComparison product.isFirst builds
      fun isLeft isRight => ?_
    obtain ⟨number, isNumber, made⟩ := product.made_const isLeft
    cases made
    rw [valueIn_intConst isRight]
    refine ⟨number, isNumber, ?_⟩
    rw [← BinaryOp.onLane_mul_of_ne_zero isEquality nonzero,
      Int.tdiv_mul_cancel (Int.dvd_of_tmod_eq_zero divides)]
  next remains =>
    cases builds
    refine compares.settles_ofInt fun isLeft isRight => ?_
    obtain ⟨number, isNumber, made⟩ := product.made_const isLeft
    cases made
    rw [valueIn_intConst isRight]
    have unequal : number * factor ≠ value := by
      rintro rfl
      exact remains (Int.mul_tmod_left number factor)
    rcases isEquality with rfl | rfl
    · exact congrArg (fun truth : Bool => some (truth.toNat : Int)) (decide_eq_false unequal)
    · exact congrArg (fun truth : Bool => some (truth.toNat : Int)) (decide_eq_true unequal)

theorem settles_divideLeft? {constType : DataType}
    (compares : Compares check env dtype op lhs (intConst constType value))
    (applies : divideLeft? dtype op lhs value = some result) :
    Settles check env (binary dtype op lhs (intConst constType value)) result := by
  simp [divideLeft?] at applies
  obtain ⟨x, factor, ⟨productType, factorType, rfl⟩, nonzero, applies⟩ := applies
  have product := compares.parts.isFirst.parts compares.kinded compares.isInteger
  split at applies
  · split at applies
    next positive =>
      refine compares.settles_binaryConst? rfl product.isFirst applies fun isLeft isRight => ?_
      obtain ⟨number, isNumber, made⟩ := product.made_const isLeft
      cases made
      rw [valueIn_intConst isRight]
      exact ⟨number, isNumber, BinaryOp.onLane_lt_congr (lt_ceilDiv_iff positive)⟩
    next =>
      refine compares.settles_constBinary? rfl product.isFirst applies fun isLeft isRight => ?_
      obtain ⟨number, isNumber, made⟩ := product.made_const isLeft
      cases made
      rw [valueIn_intConst isRight]
      exact ⟨number, isNumber, BinaryOp.onLane_lt_congr (fdiv_lt_iff_mul_lt (by omega))⟩
  · exact settles_divideEquality? compares (.inl rfl) nonzero applies
  · exact settles_divideEquality? compares (.inr rfl) nonzero applies
  · cases applies

theorem settles_divideRight? {constType : DataType}
    (compares : Compares check env dtype op (intConst constType value) rhs)
    (applies : divideRight? op value rhs = some result) :
    Settles check env (binary dtype op (intConst constType value) rhs) result := by
  simp [divideRight?] at applies
  obtain ⟨x, factor, ⟨productType, factorType, rfl⟩, ⟨rfl, nonzero⟩, applies⟩ := applies
  have product := compares.parts.isSecond.parts compares.kinded compares.isInteger
  split at applies
  next positive =>
    refine compares.settles_constBinary? rfl product.isFirst applies fun isLeft isRight => ?_
    obtain ⟨number, isNumber, made⟩ := product.made_const isRight
    cases made
    rw [valueIn_intConst isLeft]
    exact ⟨number, isNumber, BinaryOp.onLane_le_congr (lt_ceilDiv_iff positive)⟩
  next =>
    refine compares.settles_binaryConst? rfl product.isFirst applies fun isLeft isRight => ?_
    obtain ⟨number, isNumber, made⟩ := product.made_const isRight
    cases made
    rw [valueIn_intConst isLeft]
    exact ⟨number, isNumber, BinaryOp.onLane_le_congr (fdiv_lt_iff_mul_lt (by omega))⟩

theorem settles_divideComparison? (compares : Compares check env dtype op lhs rhs)
    (applies : divideComparison? (binary dtype op lhs rhs) = some result) :
    Settles check env (binary dtype op lhs rhs) result := by
  simp [divideComparison?, asIntComparison?, asBinary?] at applies
  obtain ⟨-, applies⟩ := applies
  split at applies
  next isConst =>
    obtain ⟨constType, rfl⟩ := asInt?_eq_some.mp isConst
    exact settles_divideLeft? compares applies
  next isConst _ =>
    obtain ⟨constType, rfl⟩ := asInt?_eq_some.mp isConst
    exact settles_divideRight? compares applies
  next => cases applies

/-! ### Common terms -/

section Cancellation

variable {leftType rightType : DataType} {left right a b c d : Expr}

/-- Sums are compared without the term that they share. -/
theorem settles_cancelledSums
    (compares : Compares check env dtype op (binary leftType .add a b) (binary rightType .add c d))
    (found : Sums.withoutShared? (a, b) (c, d) = some (left, right))
    (builds : binary? op left right = some result) :
    Settles check env (binary dtype op (binary leftType .add a b) (binary rightType .add c d))
      result := by
  obtain ⟨shared, leftSum, rightSum⟩ := parts_of_withoutShared?
    (compares.parts.isFirst.parts compares.kinded compares.isInteger)
    (compares.parts.isSecond.parts compares.kinded compares.isInteger) rfl found
  refine compares.settles_sameDifference leftSum.isSecond rightSum.isSecond builds fun isX isY => ?_
  obtain ⟨common, isCommon, first, isFirst, sum⟩ := leftSum.made isX
  obtain ⟨common', isCommon', second, isSecond, sum'⟩ := rightSum.made isY
  cases isCommon.symm.trans isCommon'
  cases sum
  cases sum'
  exact ⟨first, isFirst, second, isSecond, by omega⟩

/-- Differences from one minuend are compared the other way, and differences of one subtrahend as they
are. -/
theorem settles_cancelledDifferences
    (compares : Compares check env dtype op (binary leftType .sub a b) (binary rightType .sub c d))
    (found : (if a = c then some (d, b) else if b = d then some (a, c) else none) = some (left, right))
    (builds : binary? op left right = some result) :
    Settles check env (binary dtype op (binary leftType .sub a b) (binary rightType .sub c d))
      result := by
  have leftDifference := compares.parts.isFirst.parts compares.kinded compares.isInteger
  have rightDifference := compares.parts.isSecond.parts compares.kinded compares.isInteger
  split at found
  next same =>
    cases found
    subst same
    refine compares.settles_sameDifference rightDifference.isSecond leftDifference.isSecond builds
      fun isX isY => ?_
    obtain ⟨common, isCommon, first, isFirst, made⟩ := leftDifference.made isX
    obtain ⟨common', isCommon', second, isSecond, made'⟩ := rightDifference.made isY
    cases isCommon.symm.trans isCommon'
    cases made
    cases made'
    exact ⟨second, isSecond, first, isFirst, by omega⟩
  next =>
    obtain ⟨same, equal⟩ := Option.ite_none_right_eq_some.mp found
    cases equal
    subst same
    refine compares.settles_sameDifference leftDifference.isFirst rightDifference.isFirst builds
      fun isX isY => ?_
    obtain ⟨first, isFirst, common, isCommon, made⟩ := leftDifference.made isX
    obtain ⟨second, isSecond, common', isCommon', made'⟩ := rightDifference.made isY
    cases isCommon.symm.trans isCommon'
    cases made
    cases made'
    exact ⟨first, isFirst, second, isSecond, by omega⟩

/-- Multiples by one factor are compared as what is multiplied, the other way for a negative factor. -/
theorem settles_cancelledProducts {leftConst rightConst : DataType} {factor factor' : Int}
    (compares : Compares check env dtype op (binary leftType .mul a (intConst leftConst factor))
      (binary rightType .mul b (intConst rightConst factor')))
    (found : (if factor = 0 ∨ factor ≠ factor' then none
      else if 0 < factor ∨ op = .eq ∨ op = .ne then some (a, b) else some (b, a)) = some (left, right))
    (builds : binary? op left right = some result) :
    Settles check env (binary dtype op (binary leftType .mul a (intConst leftConst factor))
      (binary rightType .mul b (intConst rightConst factor'))) result := by
  have leftProduct := compares.parts.isFirst.parts compares.kinded compares.isInteger
  have rightProduct := compares.parts.isSecond.parts compares.kinded compares.isInteger
  obtain ⟨same, chosen⟩ := Option.ite_none_left_eq_some.mp found
  obtain ⟨nonzero, rfl⟩ : factor ≠ 0 ∧ factor = factor' := by simpa only [not_or, not_not] using same
  split at chosen
  next keeps =>
    cases chosen
    refine compares.settles_binary? compares.isComparison leftProduct.isFirst rightProduct.isFirst
      builds fun isX isY => ?_
    obtain ⟨first, isFirst, made⟩ := leftProduct.made_const isX
    obtain ⟨second, isSecond, made'⟩ := rightProduct.made_const isY
    cases made
    cases made'
    refine ⟨first, isFirst, second, isSecond, ?_⟩
    rcases keeps with positive | isEquality
    · exact (BinaryOp.onLane_mul_of_pos compares.isComparison positive).symm
    · exact (BinaryOp.onLane_mul_of_ne_zero isEquality nonzero).symm
  next turns =>
    cases chosen
    refine compares.settles_binary? compares.isComparison rightProduct.isFirst leftProduct.isFirst
      builds fun isX isY => ?_
    obtain ⟨first, isFirst, made⟩ := leftProduct.made_const isX
    obtain ⟨second, isSecond, made'⟩ := rightProduct.made_const isY
    cases made
    cases made'
    exact ⟨second, isSecond, first, isFirst,
      (BinaryOp.onLane_mul_of_neg compares.isComparison (by omega)).symm⟩

theorem settles_cancelled? (compares : Compares check env dtype op lhs rhs)
    (found : cancelled? op lhs rhs = some (left, right))
    (builds : binary? op left right = some result) :
    Settles check env (binary dtype op lhs rhs) result := by
  have isLeft := compares.parts.isFirst
  have isRight := compares.parts.isSecond
  have isZero {zero : Expr} (isConstant : constantLike? lhs 0 = some zero) :
      Yields check env zero lhs.dtype fun _ => some 0 :=
    isLeft.constantLike? compares.kinded isConstant
  unfold cancelled? at found
  dsimp only at found
  split at found
  next first second isFirst isSecond =>
    obtain ⟨leftType, rfl⟩ := operands?_eq_some.mp isFirst
    obtain ⟨rightType, rfl⟩ := operands?_eq_some.mp isSecond
    exact settles_cancelledSums compares found builds
  split at found
  next a b c d isFirst isSecond =>
    obtain ⟨leftType, rfl⟩ := operands?_eq_some.mp isFirst
    obtain ⟨rightType, rfl⟩ := operands?_eq_some.mp isSecond
    exact settles_cancelledDifferences compares found builds
  split at found
  next x factor y factor' isFirst isSecond =>
    obtain ⟨leftType, leftConst, rfl⟩ := withConst?_eq_some.mp isFirst
    obtain ⟨rightType, rightConst, rfl⟩ := withConst?_eq_some.mp isSecond
    exact settles_cancelledProducts compares found builds
  -- One side is a term of the other side, and zero is left of it.
  split at found
  next =>
    simp at found
    obtain ⟨other, zero⟩ := found
    have sum := isLeft.parts_of_otherOperand? compares.kinded compares.isInteger rfl other
    refine compares.settles_sameDifference sum.isSecond (isZero zero) builds fun isX isY => ?_
    obtain ⟨common, isCommon, a, isA, made⟩ := sum.made isX
    cases isCommon.symm.trans isY
    cases made
    exact ⟨a, isA, 0, rfl, by omega⟩
  split at found
  next =>
    simp at found
    obtain ⟨other, zero⟩ := found
    have sum := isRight.parts_of_otherOperand? compares.kinded compares.isInteger rfl other
    refine compares.settles_sameDifference (isZero zero) sum.isSecond builds fun isX isY => ?_
    obtain ⟨common, isCommon, a, isA, made⟩ := sum.made isY
    cases isCommon.symm.trans isX
    cases made
    exact ⟨0, rfl, a, isA, by omega⟩
  split at found
  next a b isFirst =>
    obtain ⟨leftType, rfl⟩ := operands?_eq_some.mp isFirst
    simp at found
    obtain ⟨rfl, zero, rfl⟩ := found
    have difference := isLeft.parts compares.kinded compares.isInteger
    refine compares.settles_sameDifference (isZero zero) difference.isSecond builds fun isX isY => ?_
    obtain ⟨common, isCommon, a, isA, made⟩ := difference.made isX
    cases isCommon.symm.trans isY
    cases made
    exact ⟨0, rfl, a, isA, by omega⟩
  next a b _ isSecond =>
    obtain ⟨rightType, rfl⟩ := operands?_eq_some.mp isSecond
    simp at found
    obtain ⟨rfl, zero, rfl⟩ := found
    have difference := isRight.parts compares.kinded compares.isInteger
    refine compares.settles_sameDifference difference.isSecond (isZero zero) builds fun isX isY => ?_
    obtain ⟨common, isCommon, a, isA, made⟩ := difference.made isY
    cases isCommon.symm.trans isX
    cases made
    exact ⟨a, isA, 0, rfl, by omega⟩
  next => cases found

end Cancellation

theorem settles_cancelComparison? (compares : Compares check env dtype op lhs rhs)
    (applies : cancelComparison? (binary dtype op lhs rhs) = some result) :
    Settles check env (binary dtype op lhs rhs) result := by
  simp [cancelComparison?, asIntComparison?, asBinary?] at applies
  obtain ⟨-, left, right, found, builds⟩ := applies
  exact settles_cancelled? compares found builds

/-! ### Divisions -/

/-- A comparison in normal form of a term with a constant, in place of another one that holds of the
same integers. -/
theorem settles_normalForm? {normal : BinaryOp} {term x : Expr} {constant bound : Int}
    (compares : Compares check env dtype op lhs rhs)
    (found : againstConst? (binary dtype op lhs rhs) = some (normal, term, constant))
    (isTerm : Yields check env x lhs.dtype (x.valueIn check env))
    (builds : normalForm? normal x bound = some result)
    (reads : ∀ {index number}, term.valueIn check env index = some number →
      ∃ left, x.valueIn check env index = some left ∧ (left < bound ↔ number < constant)) :
    Settles check env (binary dtype op lhs rhs) result := by
  simp [againstConst?, asBinary?] at found
  split at found
  · obtain ⟨value, isConst, equal⟩ := Option.bind_eq_some_iff.mp found
    cases equal
    obtain ⟨constType, rfl⟩ := asInt?_eq_some.mp isConst
    refine compares.settles_binaryConst? rfl isTerm builds fun isLeft isRight => ?_
    obtain ⟨left, isX, same⟩ := reads isLeft
    rw [valueIn_intConst isRight]
    exact ⟨left, isX, BinaryOp.onLane_lt_congr same⟩
  · obtain ⟨value, isConst, equal⟩ := Option.bind_eq_some_iff.mp found
    cases equal
    obtain ⟨constType, rfl⟩ := asInt?_eq_some.mp isConst
    refine compares.settles_constBinary? rfl isTerm builds fun isLeft isRight => ?_
    obtain ⟨left, isX, same⟩ := reads isRight
    rw [valueIn_intConst isLeft]
    exact ⟨left, isX, BinaryOp.onLane_le_congr same⟩
  · cases found

/-- The term that is compared with a constant has the type of the sides. -/
theorem yields_of_againstConst? {normal : BinaryOp} {term : Expr} {constant : Int}
    (compares : Compares check env dtype op lhs rhs)
    (found : againstConst? (binary dtype op lhs rhs) = some (normal, term, constant)) :
    Yields check env term lhs.dtype (term.valueIn check env) := by
  simp [againstConst?, asBinary?] at found
  split at found
  · obtain ⟨value, -, equal⟩ := Option.bind_eq_some_iff.mp found
    cases equal
    exact compares.parts.isFirst
  · obtain ⟨value, -, equal⟩ := Option.bind_eq_some_iff.mp found
    cases equal
    exact compares.parts.isSecond
  · cases found

theorem settles_withoutRest? {normal : BinaryOp} {sum x rest : Expr} {productType constType : DataType}
    {constant factor greatest : Int} (told : ∀ question, answers.TrueIn check env question)
    (compares : Compares check env dtype op lhs rhs)
    (found : againstConst? (binary dtype op lhs rhs) = some (normal, sum, constant))
    (isSum : Parts check env .add sum lhs.dtype
      (binary productType .mul x (intConst constType factor)) rest)
    (positive : 0 < factor) (isMultiple : constant.tmod factor = 0)
    (nonneg : (answers.evidence.bound rest).isNonNegative = true)
    (isUpper : (answers.evidence.bound rest).upper.finite? = some greatest) (small : greatest < factor)
    (builds : normalForm? normal x (constant.tdiv factor) = some result) :
    Settles check env (binary dtype op lhs rhs) result := by
  have product := isSum.isFirst.parts compares.kinded compares.isInteger
  refine settles_normalForm? compares found product.isFirst builds fun {index number} isNumber => ?_
  obtain ⟨multiple, isFirst, left, isRest, made⟩ := isSum.made isNumber
  obtain ⟨quotient, isFactor, scaled⟩ := product.made_const isFirst
  cases made
  cases scaled
  refine ⟨quotient, isFactor, ?_⟩
  have member := told (.bound rest) index left isRest
  have below : left ≤ greatest := by
    have upper := (Bound.contains_iff.mp member).2
    rwa [Bound.eq_finite_of_finite? isUpper, Limit.finite_le_finite] at upper
  have apart : quotient * factor + left < constant.tdiv factor * factor ↔
      quotient < constant.tdiv factor :=
    add_lt_mul_iff positive (Bound.nonneg_of_isNonNegative nonneg member) (by omega)
  rw [Int.tdiv_mul_cancel (Int.dvd_of_tmod_eq_zero isMultiple)] at apart
  exact apart.symm

theorem settles_dropRemainder? (told : ∀ question, answers.TrueIn check env question)
    (compares : Compares check env dtype op lhs rhs)
    (applies : dropRemainder? answers.evidence (binary dtype op lhs rhs) = some result) :
    Settles check env (binary dtype op lhs rhs) result := by
  simp [dropRemainder?] at applies
  obtain ⟨normal, constant, a, b, sumType, found, applies⟩ := applies
  have sum := (yields_of_againstConst? compares found).parts compares.kinded compares.isInteger
  split at applies
  next term isProduct =>
    obtain ⟨x, factor⟩ := term
    obtain ⟨productType, constType, rfl⟩ := withConst?_eq_some.mp isProduct
    simp at applies
    obtain ⟨⟨positive, isMultiple⟩, nonneg, greatest, isUpper, small, builds⟩ := applies
    exact settles_withoutRest? told compares found sum positive isMultiple nonneg isUpper small builds
  next =>
    simp at applies
    obtain ⟨x, factor, ⟨productType, constType, rfl⟩, ⟨positive, isMultiple⟩, nonneg, greatest, isUpper,
      small, builds⟩ := applies
    exact settles_withoutRest? told compares found (sum.symm rfl) positive isMultiple nonneg isUpper small
      builds

theorem settles_compareFloorDiv? (compares : Compares check env dtype op lhs rhs)
    (applies : compareFloorDiv? (binary dtype op lhs rhs) = some result) :
    Settles check env (binary dtype op lhs rhs) result := by
  simp [compareFloorDiv?] at applies
  obtain ⟨normal, constant, x, divisor, ⟨quotientType, constType, found⟩, positive, builds⟩ := applies
  have quotient := (yields_of_againstConst? compares found).parts compares.kinded compares.isInteger
  refine settles_normalForm? compares found quotient.isFirst builds fun isQuotient => ?_
  obtain ⟨number, isNumber, made⟩ := quotient.made_const isQuotient
  obtain ⟨-, divided⟩ := Option.ite_none_left_eq_some.mp made
  cases divided
  exact ⟨number, isNumber, (fdiv_lt_iff_lt_mul positive).symm⟩

/-! ### The rules -/

/-- What a rule for comparisons makes of a comparison of integers has its value, if everything that
the rule is told is true. -/
theorem settles_of_rewrites {rule : Rule} (member : rule ∈ rules)
    (compares : Compares check env dtype op lhs rhs)
    (told : ∀ question, answers.TrueIn check env question)
    (rewrites : rule.Rewrites answers (binary dtype op lhs rhs) result) :
    Settles check env (binary dtype op lhs rhs) result := by
  simp only [rules, Rule.pure, List.mem_cons, List.not_mem_nil, or_false] at member
  rcases member with rfl | rfl | rfl | rfl | rfl | rfl | rfl | rfl | rfl
  · exact settles_compareDifference? compares rewrites
  · exact settles_normalize? compares rewrites
  · cases (boolEquality?_eq_none compares).symm.trans rewrites
  · obtain ⟨first, second, isOperands, applies⟩ := rewrites
    simp [comparisonOperands?, asIntComparison?, asBinary?] at isOperands
    obtain ⟨⟨rfl, rfl⟩, -⟩ := isOperands
    exact settles_knownComparison? compares (told (.relation _ _)) applies
  · exact settles_moveConstant? compares rewrites
  · exact settles_divideComparison? compares rewrites
  · exact settles_cancelComparison? compares rewrites
  · exact settles_dropRemainder? told compares rewrites
  · exact settles_compareFloorDiv? compares rewrites

/-- The rules for comparisons are exact. What a rule makes of a well-typed comparison of integers has
the value of the comparison wherever both have one, provided that the answers to what the rule asked
are true. -/
theorem comparisonRules_exact {rule : Rule} {asked : Question → Prop} (member : rule ∈ rules)
    (typed : (binary dtype op lhs rhs).WellTyped) (isComparison : op.isComparison = true)
    (isInteger : lhs.dtype.isInteger = true) (kinded : env.Kinded)
    (rewrites : rule.RewritesAsking asked answers (binary dtype op lhs rhs) result)
    (told : ∀ question, asked question → answers.TrueTo env question) :
    ∀ first second, (binary dtype op lhs rhs).eval env = some first → result.eval env = some second →
      first = second := by
  obtain ⟨other, isTrue, rewrites⟩ := rewrites.exists_trueIn told
  have compares : Compares .checked env dtype op lhs rhs := ⟨typed, kinded, isComparison, isInteger⟩
  intro first second isFirst isSecond
  exact (settles_of_rewrites member compares isTrue rewrites).eq typed kinded
    (typed.hasTruths kinded isComparison) isFirst isSecond

/-- A remainder is dropped up to the end of its bound: `x * 8 + y < 16` is `x < 2` where `y` is seven
at most. -/
theorem comparisonRules_exact_remainder :
    let x : Variable := ⟨"x", .int32, false⟩
    let y : Variable := ⟨"y", .int32, false⟩
    let node := binary .int32
    let constant := intConst .int32
    let sum := node .add (node .mul x.expr (constant 8)) y.expr
    let result := binary .bool .lt x.expr (constant 2)
    let bound (expr : Expr) : Bound := if expr = y.expr then .ofInts 0 7 else .everything
    let evidence : Evidence := ⟨bound, fun _ => .everything, fun _ => none, []⟩
    let env := (Environment.empty.set x (.int 1)).set y (.int 7)
    dropRemainder? evidence (binary .bool .lt sum (constant 16)) = some result ∧
      (binary .bool .lt sum (constant 16)).eval env = some (.bool true) ∧
      ∀ first second, (binary .bool .lt sum (constant 16)).eval env = some first →
        result.eval env = some second → first = second := by
  intro x y node constant sum result bound evidence env
  let asked : Question → Prop := fun question => question = .bound y.expr
  let answers : Answers := ⟨evidence, fun _ _ => .unknown⟩
  have kinded : env.Kinded :=
    ((Environment.typed_empty.set_int rfl (by decide) (by decide)).set_int rfl (by decide)
      (by decide)).kinded
  have rewrites : (Rule.plain .dropRemainder dropRemainder?).RewritesAsking asked answers
      (binary .bool .lt sum (constant 16)) result := by
    intro other same
    have isBound : other.evidence.bound y.expr = .ofInts 0 7 := same (.bound y.expr) rfl
    show dropRemainder? other.evidence (binary .bool .lt sum (constant 16)) = some result
    simp [dropRemainder?, againstConst?, asBinary?, asInt?, sum, node, constant, isBound]
    rfl
  refine ⟨by decide +kernel, rfl, ?_⟩
  refine comparisonRules_exact (by simp [rules]) (by decide) rfl rfl kinded rewrites ?_
  rintro question rfl index number isNumber
  rw [valueIn_of_evaluate_int (rfl : y.expr.eval env = some (.int 7)) isNumber]
  rfl

end Reduction.Comparisons

end IndexAlgebra
