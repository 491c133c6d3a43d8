/-
This file says which expressions have an exact value where a form has one. The operands that a node
evaluates have values where the node does, and a regular node has a value where its operands do, unless
it divides by zero. What is built of parts of the form and of constants is therefore regular again and
has a value where the form has one, as long as it divides by nothing new.
-/
import IndexAlgebra.Proofs.Exact.Quotients
import IndexAlgebra.Proofs.Exact.Truths

namespace IndexAlgebra

open IndexAlgebra.Reduction.Quotients (IsDivision)

/-! ### Lanes with a value -/

theorem exists_mapM {α β : Type} {f : α → Option β} {items : List α}
    (each : ∀ item ∈ items, ∃ result, f item = some result) : ∃ results, items.mapM f = some results := by
  induction items with
  | nil => exact ⟨[], rfl⟩
  | cons first others inductionHypothesis =>
    rw [List.forall_mem_cons] at each
    obtain ⟨result, isResult⟩ := each.1
    obtain ⟨results, areResults⟩ := inductionHypothesis each.2
    exact ⟨result :: results, by simp [isResult, areResults]⟩

namespace Scalar

variable {op : BinaryOp} {dtype : DataType}

theorem exists_binaryInt? {left right : Int} (notLogical : op.isLogical = false)
    (nonzero : IsDivision op → right ≠ 0) :
    ∃ lane, binaryInt? .unbounded dtype op left right = some lane := by
  cases op with
  | truncDiv | floorDiv | truncMod | floorMod =>
    have nonzero : right ≠ 0 := nonzero (by simp [IsDivision])
    exact ⟨_, if_neg nonzero⟩
  | and | or => cases notLogical
  | _ => exact ⟨_, rfl⟩

theorem exists_binary?_bool {left right : Bool} (notArithmetic : ¬op.opClass = .arithmetic) :
    ∃ lane, binary? .unbounded dtype op (.bool left) (.bool right) = some lane := by
  cases op <;> first | exact ⟨_, rfl⟩ | exact absurd rfl notArithmetic

end Scalar

namespace Expr

variable {env : Environment} {expr form value lhs rhs a b cond onTrue onFalse built : Expr}
  {op : BinaryOp} {dtype : DataType} {lanes : Nat}

/-- The lanes of a regular expression are integers or truth values, as its type says. -/
theorem Regular.kindOfLanes (regular : expr.Regular) (truthful : env.Truthful) {result : Value}
    (evaluated : expr.evalExact env = some result) (count : Nat)
    (enough : expr.lanes = count ∨ expr.lanes = 1) :
    (result.toLanes count).length = count ∧ ∀ lane ∈ result.toLanes count,
      (expr.dtype.isInteger = true → ∃ number, lane = .int number) ∧
        (expr.dtype.isBool = true → ∃ truth, lane = .bool truth) := by
  have kinded := evaluate_kinded regular.typed truthful.kinded evaluated
  obtain ⟨length, ofKind⟩ := kinded.toLanes count enough
  refine ⟨length, fun lane member => ⟨fun isInteger => (ofKind lane member).exists_int isInteger,
    fun isBool => ?_⟩⟩
  refine regular.hasTruths truthful isBool result evaluated lane ?_
  rcases enough with rfl | one
  · exact member
  · rw [one]
    have single := kinded.ofKind one
    rw [single.isLane.toLanes] at member
    rw [single.toLanes_one, List.eq_of_mem_replicate member]
    exact List.mem_singleton_self result

/-! ### Nodes with a value -/

/-- A regular binary node has a value if its operands have one, and no divisor is zero. -/
theorem Regular.exists_binary (regular : (binary dtype op lhs rhs).Regular) (truthful : env.Truthful)
    {left right : Value} (isLeft : lhs.evalExact env = some left)
    (isRight : rhs.evalExact env = some right)
    (nonzero : IsDivision op → ∀ index number, rhs.valueIn .unbounded env index = some number →
      number ≠ 0) : ∃ result, (binary dtype op lhs rhs).evalExact env = some result := by
  have isLhs : lhs.Regular := regular.child (by simp [children])
  have isRhs : rhs.Regular := regular.child (by simp [children])
  have typed := regular.typed
  rw [WellTyped] at typed
  obtain ⟨-, -, same, isType, logical⟩ := typed
  have count : lhs.lanes = dtype.lanes := by rw [Expr.lanes, isType, lanes_binaryType]
  have count' : rhs.lanes = dtype.lanes := by rw [← count, Expr.lanes, Expr.lanes, same]
  obtain ⟨-, lefts⟩ := isLhs.kindOfLanes truthful isLeft dtype.lanes (.inl count)
  obtain ⟨-, rights⟩ := isRhs.kindOfLanes truthful isRight dtype.lanes (.inl count')
  suffices made : ∃ results, (List.zip (left.toLanes dtype.lanes) (right.toLanes dtype.lanes)).mapM
      (fun lane => Scalar.binary? .unbounded lhs.dtype.element op lane.1 lane.2) = some results by
    obtain ⟨results, made⟩ := made
    exact ⟨_, evaluate_binary_eq_some.mpr ⟨left, right, results, isLeft, isRight, made, rfl⟩⟩
  refine exists_mapM fun lane member => ?_
  obtain ⟨ofLeft, ofRight⟩ := List.of_mem_zip member
  rcases isLhs.isInteger_or_isBool with isInteger | isBool
  · obtain ⟨first, isFirst⟩ := (lefts _ ofLeft).1 isInteger
    obtain ⟨second, isSecond⟩ := (rights _ ofRight).1 (same ▸ isInteger)
    rw [isFirst, isSecond]
    refine Scalar.exists_binaryInt? ?_ fun isDivision => ?_
    · by_contra isLogical
      have isBool := logical (by simpa using isLogical)
      cases (DataType.isInteger_of_isBool isBool).symm.trans isInteger
    · obtain ⟨index, inside, isLane⟩ := List.getElem_of_mem ofRight
      refine nonzero isDivision index second (valueIn_eq_some.mpr ⟨right, isRight, .int second, ?_, rfl⟩)
      rw [count', List.getElem?_eq_getElem inside, isLane, isSecond]
  · obtain ⟨first, isFirst⟩ := (lefts _ ofLeft).2 isBool
    obtain ⟨second, isSecond⟩ := (rights _ ofRight).2 (same ▸ isBool)
    rw [isFirst, isSecond]
    refine Scalar.exists_binary?_bool fun arithmetic => regular.not_mixesTruths ⟨arithmetic, ?_⟩
    rw [isType, binaryType_of_arithmetic arithmetic]
    exact isBool

theorem Regular.exists_not (regular : (not dtype value).Regular) (truthful : env.Truthful)
    {operand : Value} (isOperand : value.evalExact env = some operand) :
    ∃ result, (not dtype value).evalExact env = some result := by
  have typed := regular.typed
  rw [WellTyped] at typed
  obtain ⟨-, isType, isBool⟩ := typed
  obtain ⟨-, truths⟩ := (regular.child (List.mem_singleton_self value)).kindOfLanes truthful isOperand
    dtype.lanes (.inl (by rw [Expr.lanes, isType]))
  suffices made : ∃ results, (operand.toLanes dtype.lanes).mapM
      (fun lane => lane.asBool?.map fun truth => Value.bool (!truth)) = some results by
    obtain ⟨results, made⟩ := made
    exact ⟨_, evaluate_not_eq_some.mpr ⟨operand, results, isOperand, made, rfl⟩⟩
  refine exists_mapM fun lane member => ?_
  obtain ⟨truth, rfl⟩ := (truths lane member).2 (isType ▸ isBool)
  exact ⟨_, rfl⟩

theorem Regular.exists_cast (regular : (cast dtype value).Regular) (truthful : env.Truthful)
    {operand : Value} (isOperand : value.evalExact env = some operand) :
    ∃ result, (cast dtype value).evalExact env = some result := by
  have isValue : value.Regular := regular.child (List.mem_singleton_self value)
  have notFloat : dtype.isFloat = false := regular.notFloat
  have typed := regular.typed
  rw [WellTyped] at typed
  obtain ⟨-, kinds⟩ := isValue.kindOfLanes truthful isOperand dtype.lanes (.inl typed.2.2.symm)
  suffices made : ∃ results, (operand.toLanes dtype.lanes).mapM
      (Scalar.cast? .unbounded dtype.element) = some results by
    obtain ⟨results, made⟩ := made
    exact ⟨_, evaluate_cast_eq_some.mpr ⟨operand, results, isOperand, made, rfl⟩⟩
  refine exists_mapM fun lane member => ?_
  unfold Scalar.cast?
  rw [DataType.isFloat_element, notFloat]
  rcases isValue.isInteger_or_isBool with isInteger | isBool
  · obtain ⟨number, rfl⟩ := (kinds lane member).1 isInteger
    split <;> exact ⟨_, rfl⟩
  · obtain ⟨truth, rfl⟩ := (kinds lane member).2 isBool
    split <;> exact ⟨_, rfl⟩

theorem Regular.exists_select (regular : (select dtype cond onTrue onFalse).Regular)
    (truthful : env.Truthful) {truths taken refused : Value}
    (isCond : cond.evalExact env = some truths) (isTaken : onTrue.evalExact env = some taken)
    (isRefused : onFalse.evalExact env = some refused) :
    ∃ result, (select dtype cond onTrue onFalse).evalExact env = some result := by
  have typed := regular.typed
  rw [WellTyped] at typed
  obtain ⟨-, -, -, isBool, -, rfl, count⟩ := typed
  obtain ⟨-, kinds⟩ := (regular.child (by simp [children]) : cond.Regular).kindOfLanes truthful isCond
    onTrue.dtype.lanes count
  suffices made : ∃ results, (List.zip (truths.toLanes onTrue.dtype.lanes)
      (List.zip (taken.toLanes onTrue.dtype.lanes) (refused.toLanes onTrue.dtype.lanes))).mapM
        (fun lane => choose? lane.1 lane.2) = some results by
    obtain ⟨results, made⟩ := made
    exact ⟨_, evaluate_select_eq_some.mpr ⟨truths, taken, refused, results, isCond, isTaken, isRefused,
      made, rfl⟩⟩
  refine exists_mapM fun lane member => ?_
  obtain ⟨truth, isTruth⟩ := (kinds lane.1 (List.of_mem_zip member).1).2 isBool
  exact ⟨_, by rw [choose?, isTruth]; rfl⟩

theorem Regular.exists_ramp (regular : (ramp dtype a b lanes).Regular) (truthful : env.Truthful)
    {base stride : Value} (isBase : a.evalExact env = some base)
    (isStride : b.evalExact env = some stride) :
    ∃ result, (ramp dtype a b lanes).evalExact env = some result := by
  have isA : a.Regular := regular.child (by simp [children])
  have isB : b.Regular := regular.child (by simp [children])
  have notBool : ¬dtype.isBool = true := regular.not_mixesTruths
  have typed := regular.typed
  rw [WellTyped] at typed
  obtain ⟨-, -, same, single, -, rfl⟩ := typed
  have isInteger : a.dtype.isInteger = true := isA.isInteger_or_isBool.resolve_right notBool
  obtain ⟨first, rfl⟩ := (evaluate_kinded isA.typed truthful.kinded isBase).exists_int isInteger single
  obtain ⟨step, rfl⟩ := (evaluate_kinded isB.typed truthful.kinded isStride).exists_int
    (same ▸ isInteger) (same ▸ single)
  suffices made : ∃ results, (List.range lanes).mapM (fun (lane : Nat) =>
      (RangeCheck.unbounded (a.dtype.withLanes lanes) (first + lane * step)).map Value.int) =
        some results by
    obtain ⟨results, made⟩ := made
    exact ⟨_, evaluate_ramp_eq_some.mpr
      ⟨_, first, _, step, results, isBase, rfl, isStride, rfl, made, rfl⟩⟩
  exact exists_mapM fun lane _ => ⟨_, rfl⟩

/-! ### Operators -/

/-- An operator that gives an integer of any two integers. -/
def NeverFails (op : BinaryOp) : Prop := op = .add ∨ op = .sub ∨ op = .mul ∨ op = .min ∨ op = .max

attribute [grind =] NeverFails IsDivision

theorem opClass_eq_arithmetic (arithmetic : NeverFails op ∨ IsDivision op) : op.opClass = .arithmetic := by
  rcases arithmetic with (rfl | rfl | rfl | rfl | rfl) | (rfl | rfl | rfl | rfl) <;> rfl

@[grind =]
theorem isComparison_iff : op.isComparison = true ↔
    op = .eq ∨ op = .ne ∨ op = .lt ∨ op = .le ∨ op = .gt ∨ op = .ge := by
  cases op <;> decide

@[grind =]
theorem isLogical_iff : op.isLogical = true ↔ op = .and ∨ op = .or := by
  cases op <;> decide

/-! ### Backed expressions -/

/-- The expression is regular, and has an exact value where the form has one. -/
structure Backed (env : Environment) (form expr : Expr) : Prop where
  regular : expr.Regular
  defined : ∀ result, form.evalExact env = some result → ∃ value, expr.evalExact env = some value

/-- A backed expression of an integer type. -/
structure BackedNumber (env : Environment) (form expr : Expr) : Prop extends Backed env form expr where
  isInteger : expr.dtype.isInteger = true

attribute [grind →] BackedNumber.toBacked BackedNumber.isInteger

theorem Backed.refl (regular : form.Regular) : Backed env form form :=
  ⟨regular, fun result evaluated => ⟨result, evaluated⟩⟩

/-- An operand is backed if it has a value where the node has one. -/
theorem Backed.child (backed : Backed env form expr) {child : Expr} (isChild : child ∈ expr.children)
    (evaluates : ∀ result, expr.evalExact env = some result → ∃ value, child.evalExact env = some value) :
    Backed env form child :=
  ⟨backed.regular.child isChild, fun result evaluated =>
    (backed.defined result evaluated).elim evaluates⟩

/-! ### Operands of backed nodes -/

@[grind →]
theorem Backed.of_binary (backed : Backed env form (binary dtype op lhs rhs)) :
    Backed env form lhs ∧ Backed env form rhs := by
  refine ⟨backed.child (by simp [children]) fun result evaluated => ?_,
    backed.child (by simp [children]) fun result evaluated => ?_⟩
  · obtain ⟨left, -, -, isLeft, -⟩ := evaluate_binary_eq_some.mp evaluated
    exact ⟨left, isLeft⟩
  · obtain ⟨-, right, -, -, isRight, -⟩ := evaluate_binary_eq_some.mp evaluated
    exact ⟨right, isRight⟩

/-- The operands of a binary node have one type. -/
theorem Regular.same_of_binary (regular : (binary dtype op lhs rhs).Regular) :
    lhs.dtype = rhs.dtype ∧ dtype = binaryType op lhs.dtype ∧
      (op.isLogical = true → lhs.dtype.isBool = true) := by
  have typed := regular.typed
  rw [WellTyped] at typed
  exact typed.2.2

/-- A comparison and a combination of conditions have the type of truth values. -/
theorem Regular.isBool_of_asBinary? (regular : expr.Regular) (reads : expr.asBinary? = some (op, lhs, rhs))
    (compares : op.isComparison = true ∨ op.isLogical = true) : expr.dtype.isBool = true := by
  obtain ⟨dtype, rfl⟩ := asBinary?_eq_some.mp reads
  obtain ⟨-, isType, logical⟩ := regular.same_of_binary
  rw [Expr.dtype, isType]
  unfold binaryType
  split
  · rfl
  next notComparison => exact logical (compares.resolve_left notComparison)

/-- Arithmetic is on integers. -/
@[grind →]
theorem Backed.of_arithmetic (backed : Backed env form (binary dtype op lhs rhs))
    (arithmetic : NeverFails op ∨ IsDivision op) :
    BackedNumber env form lhs ∧ BackedNumber env form rhs ∧ dtype = lhs.dtype := by
  have arithmetic := opClass_eq_arithmetic arithmetic
  obtain ⟨isLhs, isRhs⟩ := backed.of_binary
  obtain ⟨same, isType, -⟩ := backed.regular.same_of_binary
  rw [binaryType_of_arithmetic arithmetic] at isType
  have notBool : ¬lhs.dtype.isBool = true := fun isBool =>
    backed.regular.not_mixesTruths ⟨arithmetic, isType ▸ isBool⟩
  have isInteger := isLhs.regular.isInteger_or_isBool.resolve_right notBool
  exact ⟨⟨isLhs, isInteger⟩, ⟨isRhs, same ▸ isInteger⟩, isType⟩

/-- Two expressions that are compared are integers if the first one is. -/
@[grind →]
theorem Backed.of_comparison (backed : Backed env form (binary dtype op lhs rhs))
    (isInteger : lhs.dtype.isInteger = true) :
    BackedNumber env form lhs ∧ BackedNumber env form rhs := by
  obtain ⟨isLhs, isRhs⟩ := backed.of_binary
  exact ⟨⟨isLhs, isInteger⟩, isRhs, backed.regular.same_of_binary.1 ▸ isInteger⟩

@[grind →]
theorem Backed.of_operands? (reads : expr.operands? op = some (lhs, rhs)) (backed : Backed env form expr)
    (arithmetic : NeverFails op ∨ IsDivision op) :
    BackedNumber env form lhs ∧ BackedNumber env form rhs := by
  obtain ⟨dtype, rfl⟩ := operands?_eq_some.mp reads
  obtain ⟨isLhs, isRhs, -⟩ := backed.of_arithmetic arithmetic
  exact ⟨isLhs, isRhs⟩

@[grind →]
theorem Backed.of_asBinary? (reads : expr.asBinary? = some (op, lhs, rhs)) (backed : Backed env form expr) :
    Backed env form lhs ∧ Backed env form rhs ∧
      (NeverFails op ∨ IsDivision op → BackedNumber env form lhs ∧ BackedNumber env form rhs) := by
  obtain ⟨dtype, rfl⟩ := asBinary?_eq_some.mp reads
  obtain ⟨isLhs, isRhs⟩ := backed.of_binary
  exact ⟨isLhs, isRhs, fun arithmetic =>
    ⟨(backed.of_arithmetic arithmetic).1, (backed.of_arithmetic arithmetic).2.1⟩⟩

@[grind →]
theorem Backed.of_withConst? {term : Expr} {number : Int} (reads : expr.withConst? op = some (term, number))
    (backed : Backed env form expr) (arithmetic : NeverFails op ∨ IsDivision op) :
    BackedNumber env form term := by
  obtain ⟨dtype, constType, rfl⟩ := withConst?_eq_some.mp reads
  exact (backed.of_arithmetic arithmetic).1

@[grind →]
theorem Backed.of_not (backed : Backed env form (not dtype value)) : Backed env form value :=
  backed.child (List.mem_singleton_self value) fun _ evaluated => by
    obtain ⟨operand, -, isOperand, -⟩ := evaluate_not_eq_some.mp evaluated
    exact ⟨operand, isOperand⟩

@[grind →]
theorem Backed.of_cast (backed : Backed env form (cast dtype value)) : Backed env form value :=
  backed.child (List.mem_singleton_self value) fun _ evaluated => by
    obtain ⟨operand, -, isOperand, -⟩ := evaluate_cast_eq_some.mp evaluated
    exact ⟨operand, isOperand⟩

/-- The value of a broadcast is a scalar, and there are several lanes. -/
@[grind →]
theorem Backed.of_broadcast (backed : Backed env form (broadcast dtype value lanes)) :
    Backed env form value ∧ value.lanes = 1 ∧ 2 ≤ lanes ∧ dtype = value.dtype.withLanes lanes := by
  have typed := backed.regular.typed
  rw [WellTyped] at typed
  refine ⟨backed.child (List.mem_singleton_self value) fun _ evaluated => ?_, typed.2⟩
  obtain ⟨operand, isOperand, -⟩ := evaluate_broadcast_eq_some.mp evaluated
  exact ⟨operand, isOperand⟩

@[grind →]
theorem BackedNumber.of_broadcast (backed : BackedNumber env form (broadcast dtype value lanes)) :
    BackedNumber env form value := by
  obtain ⟨isValue, -, -, rfl⟩ := backed.toBacked.of_broadcast
  exact ⟨isValue, backed.isInteger⟩

@[grind →]
theorem Backed.of_select (backed : Backed env form (select dtype cond onTrue onFalse)) :
    Backed env form cond ∧ Backed env form onTrue ∧ Backed env form onFalse := by
  refine ⟨backed.child (by simp [children]) fun result evaluated => ?_,
    backed.child (by simp [children]) fun result evaluated => ?_,
    backed.child (by simp [children]) fun result evaluated => ?_⟩
  all_goals
    obtain ⟨truths, taken, refused, -, isCond, isTaken, isRefused, -⟩ :=
      evaluate_select_eq_some.mp evaluated
  · exact ⟨truths, isCond⟩
  · exact ⟨taken, isTaken⟩
  · exact ⟨refused, isRefused⟩

/-- The branches of a choice of integers are integers. -/
@[grind →]
theorem BackedNumber.of_select (backed : BackedNumber env form (select dtype cond onTrue onFalse)) :
    BackedNumber env form onTrue ∧ BackedNumber env form onFalse := by
  obtain ⟨-, taken, refused⟩ := backed.toBacked.of_select
  have isInteger : dtype.isInteger = true := backed.isInteger
  have typed := backed.regular.typed
  rw [WellTyped] at typed
  obtain ⟨-, -, -, -, same, rfl, -⟩ := typed
  exact ⟨⟨taken, isInteger⟩, refused, same ▸ isInteger⟩

/-- The base and the stride of a ramp are single integers, and there are several lanes. -/
@[grind →]
theorem Backed.of_ramp (backed : Backed env form (ramp dtype a b lanes)) :
    BackedNumber env form a ∧ BackedNumber env form b ∧ a.lanes = 1 ∧ 2 ≤ lanes := by
  have notBool : ¬dtype.isBool = true := backed.regular.not_mixesTruths
  have typed := backed.regular.typed
  rw [WellTyped] at typed
  obtain ⟨-, -, same, single, several, rfl⟩ := typed
  have isA : Backed env form a := backed.child (by simp [children]) fun result evaluated => by
    obtain ⟨first, -, -, -, -, isFirst, -⟩ := evaluate_ramp_eq_some.mp evaluated
    exact ⟨first, isFirst⟩
  have isB : Backed env form b := backed.child (by simp [children]) fun result evaluated => by
    obtain ⟨-, -, step, -, -, -, -, isStep, -⟩ := evaluate_ramp_eq_some.mp evaluated
    exact ⟨step, isStep⟩
  have isInteger : a.dtype.isInteger = true := isA.regular.isInteger_or_isBool.resolve_right notBool
  exact ⟨⟨isA, isInteger⟩, ⟨isB, same ▸ isInteger⟩, single, several⟩

/-! ### Constants -/

theorem regular_scalarOfInt {number : Int} (valid : dtype.Valid) (scalar : dtype.lanes = 1)
    (notFloat : dtype.isFloat = false) (fits : dtype.fits number = true) :
    (scalarOfInt dtype number).Regular ∧ (scalarOfInt dtype number).dtype = dtype := by
  have yields : Yields .unbounded .empty (scalarOfInt dtype number) dtype fun _ => some number :=
    yields_scalarOfInt valid scalar notFloat fits
  refine ⟨regular_iff.mpr ⟨yields.typed, by rw [yields.isType]; exact notFloat, ?_, ?_⟩, yields.isType⟩
  all_goals
    unfold scalarOfInt
    split_ifs
  · exact id
  · exact id
  · exact id
  all_goals exact fun _ isChild => by cases isChild

/-- The constant of a type is regular if the type can hold its value. -/
theorem regular_ofInt {number : Int} (valid : dtype.Valid) (notFloat : dtype.isFloat = false)
    (fits : dtype.fits number = true) : (ofInt dtype number).Regular := by
  unfold ofInt
  split
  next several =>
    obtain ⟨isScalar, isType⟩ : (scalarOfInt dtype.element number).Regular ∧
        (scalarOfInt dtype.element number).dtype = dtype.element :=
      regular_scalarOfInt (valid_withLanes valid le_rfl) rfl notFloat fits
    refine regular_iff.mpr ⟨?_, notFloat, id, fun child isChild => ?_⟩
    · rw [WellTyped, Expr.lanes, isType]
      exact ⟨isScalar.typed, rfl, of_decide_eq_true several, rfl⟩
    · rw [List.mem_singleton.mp isChild]
      exact isScalar
  next single =>
    have few : ¬1 < dtype.lanes := by simpa [DataType.isVector] using single
    have some := valid.2.2.1
    exact (regular_scalarOfInt valid (by omega) notFloat fits).1

theorem exists_evalExact_ofInt (env : Environment) (dtype : DataType) (number : Int) :
    ∃ value, (ofInt dtype number).evalExact env = some value := by
  unfold ofInt scalarOfInt
  split_ifs <;> exact ⟨_, rfl⟩

theorem backed_ofInt {number : Int} (valid : dtype.Valid) (notFloat : dtype.isFloat = false)
    (fits : dtype.fits number = true) : Backed env form (ofInt dtype number) :=
  ⟨regular_ofInt valid notFloat fits, fun _ _ => exists_evalExact_ofInt env dtype number⟩

/-- The type of a regular expression has a constant zero. -/
@[grind .]
theorem Backed.ofInt_zero (backed : Backed env form expr) : Backed env form (ofInt expr.dtype 0) :=
  backed_ofInt backed.regular.typed.valid backed.regular.notFloat
    (DataType.fits_zero backed.regular.notFloat)

@[grind .]
theorem BackedNumber.ofInt_zero (backed : BackedNumber env form expr) :
    BackedNumber env form (ofInt expr.dtype 0) := by
  have notFloat := backed.regular.notFloat
  have yields : Yields .unbounded .empty (ofInt expr.dtype 0) expr.dtype fun _ => some 0 :=
    yields_ofInt Environment.typed_empty.kinded backed.regular.typed.valid notFloat
      (DataType.fits_zero notFloat)
  exact ⟨backed.toBacked.ofInt_zero, by rw [yields.isType]; exact backed.isInteger⟩

/-- The type of a condition has both truth values. -/
theorem Backed.ofInt_truth (backed : Backed env form expr) (isBool : expr.dtype.isBool = true)
    (truth : Bool) : Backed env form (ofInt expr.dtype truth.toNat) := by
  refine backed_ofInt backed.regular.typed.valid backed.regular.notFloat ?_
  have isCode : expr.dtype.code = .bool := by simpa [DataType.isBool] using isBool
  cases truth <;> simp [DataType.fits, DataType.minInt?, DataType.maxInt?, isCode]

@[grind .]
theorem backed_ofBool (truth : Bool) : Backed env form (ofBool truth) :=
  ⟨by cases truth <;> decide, fun _ _ => ⟨.bool truth, rfl⟩⟩

theorem backedNumber_constant? {number : Int} (valid : dtype.Valid)
    (builds : constant? dtype number = some built) :
    BackedNumber env form built ∧ built.dtype = dtype := by
  obtain ⟨⟨-, isInteger, fits⟩, equal⟩ := Option.ite_none_right_eq_some.mp builds
  cases equal
  have notFloat := DataType.isFloat_of_isInteger isInteger
  have yields : Yields .unbounded .empty (ofInt dtype number) dtype fun _ => some number :=
    yields_ofInt Environment.typed_empty.kinded valid notFloat fits
  refine ⟨⟨backed_ofInt valid notFloat fits, ?_⟩, yields.isType⟩
  rw [yields.isType]
  exact isInteger

@[grind →]
theorem Backed.constant? {number : Int} (backed : Backed env form expr)
    (builds : constant? expr.dtype number = some built) :
    BackedNumber env form built ∧ built.dtype = expr.dtype :=
  backedNumber_constant? backed.regular.typed.valid builds

@[grind →]
theorem Backed.constantLike? {number : Int} (backed : Backed env form expr)
    (builds : constantLike? expr number = some built) :
    BackedNumber env form built ∧ built.dtype = expr.dtype := backed.constant? builds

/-- A constant has its value in every lane. -/
theorem valueIn_constant? {number other : Int} {index : Nat} (truthful : env.Truthful)
    (valid : dtype.Valid) (builds : constant? dtype number = some built)
    (isNumber : built.valueIn .unbounded env index = some other) : other = number := by
  obtain ⟨⟨-, isInteger, fits⟩, equal⟩ := Option.ite_none_right_eq_some.mp builds
  cases equal
  have yields : Yields .unbounded env (ofInt dtype number) dtype fun _ => some number :=
    yields_ofInt truthful.kinded valid (DataType.isFloat_of_isInteger isInteger) fits
  exact (Option.some.inj (yields.only index other isNumber)).symm

/-! ### Operands of one type -/

/-- A constant that takes the type of a backed expression is an integer. -/
theorem Backed.retype? (backed : Backed env form expr) (retypes : retype? expr.dtype value = some built) :
    BackedNumber env form built ∧ built.dtype = expr.dtype := by
  have notFloat := backed.regular.notFloat
  have scalar {value : Expr} (retypes : retypeScalar? expr.dtype value = some built) :
      BackedNumber env form built ∧ built.dtype = expr.dtype := by
    unfold retypeScalar? at retypes
    split at retypes
    next number =>
      rw [notFloat, Bool.false_or, Option.ite_none_right_eq_some, Bool.and_eq_true] at retypes
      obtain ⟨⟨isInteger, fits⟩, equal⟩ := retypes
      have holds : Word.Fits number ∧ expr.dtype.isInteger = true ∧ expr.dtype.fits number = true :=
        ⟨Bound.word_of_fits notFloat fits, isInteger, fits⟩
      exact backedNumber_constant? backed.regular.typed.valid ((if_pos holds).trans equal)
    next => simp [notFloat] at retypes
    next => cases retypes
  unfold Expr.retype? at retypes
  split at retypes <;> exact scalar retypes

/-- Operands that are given one type are backed, and are integers if both of them were. -/
theorem backed_unify (left : Backed env form lhs) (right : Backed env form rhs) :
    Backed env form (unify lhs rhs).1 ∧ Backed env form (unify lhs rhs).2 := by
  rcases unify_cases lhs rhs with unified | ⟨retyped, retypes, unified⟩ | ⟨retyped, retypes, unified⟩
  · rw [unified]
    exact ⟨left, right⟩
  · rw [unified]
    exact ⟨left, (left.retype? retypes).1.toBacked⟩
  · rw [unified]
    exact ⟨(right.retype? retypes).1.toBacked, right⟩

/-- Numbers that are given one type stay numbers. -/
theorem backedNumber_unify (left : BackedNumber env form lhs) (right : BackedNumber env form rhs) :
    BackedNumber env form (unify lhs rhs).1 ∧ BackedNumber env form (unify lhs rhs).2 := by
  rcases unify_cases lhs rhs with unified | ⟨retyped, retypes, unified⟩ | ⟨retyped, retypes, unified⟩
  · rw [unified]
    exact ⟨left, right⟩
  · rw [unified]
    exact ⟨left, (left.retype? retypes).1⟩
  · rw [unified]
    exact ⟨(right.retype? retypes).1, right⟩

/-! ### Nodes that are built -/

theorem regular_binary (left : lhs.Regular) (right : rhs.Regular) (same : lhs.dtype = rhs.dtype)
    (unmixed : op.opClass = .arithmetic → ¬lhs.dtype.isBool = true)
    (logical : op.opClass = .logical → lhs.dtype.isBool = true) :
    (binary (binaryType op lhs.dtype) op lhs rhs).Regular := by
  refine regular_iff.mpr ⟨?_, ?_, ?_, ?_⟩
  · rw [WellTyped]
    refine ⟨left.typed, right.typed, same, rfl, fun isLogical => logical ?_⟩
    simpa [BinaryOp.isLogical] using isLogical
  · rw [Expr.dtype]
    unfold binaryType
    split
    · rfl
    · exact left.notFloat
  · rintro ⟨arithmetic, isBool⟩
    rw [binaryType_of_arithmetic arithmetic] at isBool
    exact unmixed arithmetic isBool
  · simp only [children, List.mem_cons, List.not_mem_nil, or_false, forall_eq_or_imp, forall_eq]
    exact ⟨left, right⟩

/-- A binary node of backed operands of one type is backed, if it divides by no zero. -/
theorem backed_binary (truthful : env.Truthful) (left : Backed env form lhs) (right : Backed env form rhs)
    (same : lhs.dtype = rhs.dtype) (unmixed : op.opClass = .arithmetic → ¬lhs.dtype.isBool = true)
    (logical : op.opClass = .logical → lhs.dtype.isBool = true)
    (nonzero : IsDivision op → ∀ index number, rhs.valueIn .unbounded env index = some number →
      number ≠ 0) : Backed env form (binary (binaryType op lhs.dtype) op lhs rhs) := by
  have regular := regular_binary left.regular right.regular same unmixed logical
  refine ⟨regular, fun result evaluated => ?_⟩
  obtain ⟨_, isLeft⟩ := left.defined result evaluated
  obtain ⟨_, isRight⟩ := right.defined result evaluated
  exact regular.exists_binary truthful isLeft isRight nonzero

/-- What is computed of integers by an operator is one, unless the operator divides by zero. -/
theorem backedNumber_arithmetic (truthful : env.Truthful) (left : BackedNumber env form lhs)
    (right : BackedNumber env form rhs) (arithmetic : NeverFails op ∨ IsDivision op)
    (builds : binary? op lhs rhs = some built)
    (nonzero : IsDivision op → ∀ index number,
      (unify lhs rhs).2.valueIn .unbounded env index = some number → number ≠ 0) :
    BackedNumber env form built := by
  obtain ⟨isLeft, isRight⟩ := backedNumber_unify left right
  obtain ⟨same, rfl, logical⟩ := binary?_unify builds
  refine ⟨backed_binary truthful isLeft.toBacked isRight.toBacked same (fun _ isBool => ?_) logical
    nonzero, ?_⟩
  · cases (DataType.isInteger_of_isBool isBool).symm.trans isLeft.isInteger
  · rw [Expr.dtype, binaryType_of_arithmetic (opClass_eq_arithmetic arithmetic)]
    exact isLeft.isInteger

/-- Integers are added, subtracted and multiplied to one, and so are their extrema. -/
@[grind →]
theorem backedNumber_binary? (truthful : env.Truthful) (builds : binary? op lhs rhs = some built)
    (left : BackedNumber env form lhs) (right : BackedNumber env form rhs) (total : NeverFails op) :
    BackedNumber env form built := by
  refine backedNumber_arithmetic truthful left right (.inl total) builds fun isDivision => ?_
  rcases total with rfl | rfl | rfl | rfl | rfl <;> simp [IsDivision] at isDivision

/-- An integer is divided by a constant other than zero. -/
@[grind →]
theorem backedNumber_quotient? {like : Expr} {divisor : Int} (truthful : env.Truthful)
    (builds : binary? op lhs rhs = some built) (isConstant : constantLike? like divisor = some rhs)
    (left : BackedNumber env form lhs) (isType : like.dtype = lhs.dtype) (isDivision : IsDivision op)
    (nonzero : divisor ≠ 0) : BackedNumber env form built := by
  have isConstant : constant? lhs.dtype divisor = some rhs := isType ▸ isConstant
  obtain ⟨isRight, same⟩ := left.toBacked.constant? isConstant
  refine backedNumber_arithmetic truthful left isRight (.inr isDivision) builds
    fun _ index number isNumber => ?_
  rw [unify_of_eq same.symm] at isNumber
  rw [valueIn_constant? truthful left.regular.typed.valid isConstant isNumber]
  exact nonzero

/-- An integer and a constant are combined to an integer of the same type. -/
@[grind →]
theorem backedNumber_binaryConst? {number : Int} (truthful : env.Truthful)
    (builds : binaryConst? op lhs number = some built) (left : BackedNumber env form lhs)
    (arithmetic : NeverFails op ∨ IsDivision op ∧ number ≠ 0) :
    BackedNumber env form built ∧ built.dtype = lhs.dtype := by
  obtain ⟨constant, isConstant, builds⟩ := Option.bind_eq_some_iff.mp builds
  obtain ⟨isRight, same⟩ := left.toBacked.constantLike? isConstant
  constructor
  · rcases arithmetic with total | ⟨isDivision, nonzero⟩
    · exact backedNumber_binary? truthful builds left isRight total
    · exact backedNumber_quotient? truthful builds isConstant left rfl isDivision nonzero
  · rw [(binary?_eq_some same.symm builds).1]
    exact binaryType_of_arithmetic (opClass_eq_arithmetic (arithmetic.imp id And.left))

@[grind →]
theorem backedNumber_constBinary? {number : Int} (truthful : env.Truthful)
    (builds : constBinary? op number rhs = some built) (right : BackedNumber env form rhs)
    (total : NeverFails op) : BackedNumber env form built := by
  obtain ⟨constant, isConstant, builds⟩ := Option.bind_eq_some_iff.mp builds
  exact backedNumber_binary? truthful builds (right.toBacked.constantLike? isConstant).1 right total

/-- Two values are compared, and two conditions are combined. -/
@[grind →]
theorem backed_binary? (truthful : env.Truthful) (builds : binary? op lhs rhs = some built)
    (left : Backed env form lhs) (right : Backed env form rhs)
    (compares : op.isComparison = true ∨ op.isLogical = true) : Backed env form built := by
  obtain ⟨isLeft, isRight⟩ := backed_unify left right
  obtain ⟨same, rfl, logical⟩ := binary?_unify builds
  have notArithmetic : ¬op.opClass = .arithmetic := by
    intro arithmetic
    rw [BinaryOp.isComparison, BinaryOp.isLogical, arithmetic] at compares
    simp at compares
  refine backed_binary truthful isLeft isRight same (fun arithmetic => absurd arithmetic notArithmetic)
    logical fun isDivision => absurd (opClass_eq_arithmetic (.inr isDivision)) notArithmetic

@[grind →]
theorem backed_binaryConst? {number : Int} (truthful : env.Truthful)
    (builds : binaryConst? op lhs number = some built) (left : Backed env form lhs)
    (compares : op.isComparison = true) :
    Backed env form built := by
  obtain ⟨constant, isConstant, builds⟩ := Option.bind_eq_some_iff.mp builds
  exact backed_binary? truthful builds left (left.constantLike? isConstant).1.toBacked (.inl compares)

@[grind →]
theorem backed_constBinary? {number : Int} (truthful : env.Truthful)
    (builds : constBinary? op number rhs = some built) (right : Backed env form rhs)
    (compares : op.isComparison = true) :
    Backed env form built := by
  obtain ⟨constant, isConstant, builds⟩ := Option.bind_eq_some_iff.mp builds
  exact backed_binary? truthful builds (right.constantLike? isConstant).1.toBacked right (.inl compares)

@[grind →]
theorem backed_not? (truthful : env.Truthful) (builds : not? value = some built)
    (backed : Backed env form value) : Backed env form built := by
  obtain ⟨isBool, rfl⟩ := not?_eq_some builds
  have regular : (not value.dtype value).Regular := by
    refine regular_iff.mpr ⟨?_, backed.regular.notFloat, id, fun child isChild => ?_⟩
    · rw [WellTyped]
      exact ⟨backed.regular.typed, rfl, isBool⟩
    · rw [List.mem_singleton.mp isChild]
      exact backed.regular
  refine ⟨regular, fun result evaluated => ?_⟩
  obtain ⟨_, isOperand⟩ := backed.defined result evaluated
  exact regular.exists_not truthful isOperand

@[grind →]
theorem backed_select? (truthful : env.Truthful) (builds : select? cond onTrue onFalse = some built)
    (isCond : Backed env form cond) (taken : Backed env form onTrue)
    (refused : Backed env form onFalse) : Backed env form built := by
  obtain ⟨isTaken, isRefused⟩ := backed_unify taken refused
  obtain ⟨rfl, isBool, same, count⟩ := select?_eq_some builds
  have regular : (select (unify onTrue onFalse).1.dtype cond (unify onTrue onFalse).1
      (unify onTrue onFalse).2).Regular := by
    refine regular_iff.mpr ⟨?_, isTaken.regular.notFloat, id, ?_⟩
    · rw [WellTyped]
      exact ⟨isCond.regular.typed, isTaken.regular.typed, isRefused.regular.typed, isBool, same, rfl,
        count⟩
    · simp only [children, List.mem_cons, List.not_mem_nil, or_false, forall_eq_or_imp, forall_eq]
      exact ⟨isCond.regular, isTaken.regular, isRefused.regular⟩
  refine ⟨regular, fun result evaluated => ?_⟩
  obtain ⟨_, condValue⟩ := isCond.defined result evaluated
  obtain ⟨_, takenValue⟩ := isTaken.defined result evaluated
  obtain ⟨_, refusedValue⟩ := isRefused.defined result evaluated
  exact regular.exists_select truthful condValue takenValue refusedValue

@[grind →]
theorem backed_ramp? (truthful : env.Truthful) (builds : ramp? a b lanes = some built)
    (base : BackedNumber env form a) (stride : BackedNumber env form b) (several : 2 ≤ lanes) :
    Backed env form built := by
  obtain ⟨isBase, isStride⟩ := backedNumber_unify base stride
  obtain ⟨rfl, same, notVector⟩ := ramp?_eq_some builds
  have regular : (ramp ((unify a b).1.dtype.withLanes lanes) (unify a b).1 (unify a b).2
      lanes).Regular := by
    refine regular_iff.mpr ⟨?_, isBase.regular.notFloat, ?_, ?_⟩
    · have few : ¬1 < (unify a b).1.dtype.lanes := by simpa [DataType.isVector] using notVector
      have some := isBase.regular.typed.valid.2.2.1
      rw [WellTyped, Expr.lanes]
      exact ⟨isBase.regular.typed, isStride.regular.typed, same, by omega, several, rfl⟩
    · intro isBool
      cases (DataType.isInteger_of_isBool isBool).symm.trans isBase.isInteger
    · simp only [children, List.mem_cons, List.not_mem_nil, or_false, forall_eq_or_imp, forall_eq]
      exact ⟨isBase.regular, isStride.regular⟩
  refine ⟨regular, fun result evaluated => ?_⟩
  obtain ⟨_, baseValue⟩ := isBase.defined result evaluated
  obtain ⟨_, strideValue⟩ := isStride.defined result evaluated
  exact regular.exists_ramp truthful baseValue strideValue

/-- A conversion of a backed expression is backed. -/
theorem backed_cast (truthful : env.Truthful) (backed : Backed env form value) (valid : dtype.Valid)
    (notFloat : dtype.isFloat = false) (same : dtype.lanes = value.lanes) :
    Backed env form (cast dtype value) := by
  have regular : (cast dtype value).Regular := by
    refine regular_iff.mpr ⟨?_, notFloat, id, fun child isChild => ?_⟩
    · rw [WellTyped]
      exact ⟨backed.regular.typed, valid, same⟩
    · rw [List.mem_singleton.mp isChild]
      exact backed.regular
  refine ⟨regular, fun result evaluated => ?_⟩
  obtain ⟨_, isOperand⟩ := backed.defined result evaluated
  exact regular.exists_cast truthful isOperand

theorem backed_mkBroadcast (backed : Backed env form value) (single : value.lanes = 1)
    (several : 2 ≤ lanes) : Backed env form (mkBroadcast value lanes) := by
  refine ⟨regular_iff.mpr ⟨?_, backed.regular.notFloat, id, fun child isChild => ?_⟩,
    fun result evaluated => ?_⟩
  · rw [mkBroadcast, WellTyped]
    exact ⟨backed.regular.typed, single, several, rfl⟩
  · rw [List.mem_singleton.mp isChild]
    exact backed.regular
  · obtain ⟨operand, isOperand⟩ := backed.defined result evaluated
    exact ⟨_, evaluate_broadcast_eq_some.mpr ⟨operand, isOperand, rfl⟩⟩

end Expr

end IndexAlgebra
