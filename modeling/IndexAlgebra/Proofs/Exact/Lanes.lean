/-
This file proves that the rules for vectors are exact. A vector is read lane by lane: a broadcast has
the same scalar in every lane, a ramp the base with the stride added once for each lane before it,
and an operator on vectors works on each lane alone. What a rule makes of an expression has the same
scalars in the same lanes, so that moving an operator inside broadcasts and ramps changes no value.
-/
import IndexAlgebra.Proofs.Exactness
import IndexAlgebra.Proofs.Fits.Lanes
import IndexAlgebra.Proofs.TypePreservation

namespace IndexAlgebra

/-- Arithmetic with an integer is arithmetic on two integers. -/
theorem Scalar.ints_of_binary? {check : RangeCheck} [check.Lawful] {op : BinaryOp}
    {element : DataType} {x y result : Value}
    (arithmetic : op.opClass = .arithmetic)
    (isInt : (∃ number, x = .int number) ∨ ∃ number, y = .int number)
    (computed : binary? check element op x y = some result) :
    ∃ p q r, x = .int p ∧ y = .int q ∧ result = .int r ∧ op.onLane p q = some r := by
  obtain ⟨p, q, rfl, rfl⟩ : ∃ p q, x = .int p ∧ y = .int q := by
    rcases isInt with ⟨p, rfl⟩ | ⟨q, rfl⟩
    · cases y <;> first | exact ⟨_, _, rfl, rfl⟩ | cases computed
    · cases x <;> first | exact ⟨_, _, rfl, rfl⟩ | cases computed
  rcases Expr.binaryInt?_kind computed with ⟨-, r, rfl⟩ | ⟨notArithmetic, -⟩
  · exact ⟨p, q, r, rfl, rfl, rfl, onLane_of_binaryInt? computed⟩
  · exact absurd arithmetic notArithmetic

namespace Expr

variable {check : RangeCheck} {env : Environment}
  {expr result lhs rhs a b base stride operand : Expr} {op : BinaryOp}
  {dtype : DataType} {count index : Nat} {value x y : Value} {left right : Nat → Option Value}

/-! ### Reading lane by lane -/

/-- The value of the expression, if it has one, is a vector with these lanes. -/
def Lanewise (check : RangeCheck) (env : Environment) (expr : Expr) (count : Nat)
    (lane : Nat → Option Value) : Prop :=
  ∀ value, expr.evaluate check env = some value → ∃ lanes, value = .vector lanes ∧ lanes.length = count ∧
    ∀ index, index < count → lanes[index]? = lane index

/-- Two vectors are the same if their scalars are, lane by lane. -/
theorem Lanewise.sameIn (isLeft : Lanewise check env expr count left)
    (isRight : Lanewise check env result count right)
    (same : ∀ index x y, left index = some x → right index = some y → x = y) :
    SameIn check env expr result := by
  intro first second isFirst isSecond
  obtain ⟨xs, rfl, length, areXs⟩ := isLeft first isFirst
  obtain ⟨ys, rfl, length', areYs⟩ := isRight second isSecond
  refine congrArg Value.vector (List.ext_getElem (length.trans length'.symm) ?_)
  intro index inXs inYs
  refine same index _ _ ?_ ?_
  · rw [← areXs index (length ▸ inXs), List.getElem?_eq_getElem inXs]
  · rw [← areYs index (length' ▸ inYs), List.getElem?_eq_getElem inYs]

/-- A broadcast has the value of its operand in every lane. -/
theorem lanewise_broadcast :
    Lanewise check env (broadcast dtype operand count) count fun _ => operand.evaluate check env := by
  intro value evaluated
  obtain ⟨scalar, isScalar, rfl⟩ := evaluate_broadcast_eq_some.mp evaluated
  refine ⟨_, rfl, List.length_replicate, fun index inside => ?_⟩
  rw [List.getElem?_replicate, if_pos inside]
  exact isScalar.symm

/-- The integer that a scalar expression stands for, where a truth value stands for zero or one. -/
def integer? (check : RangeCheck) (env : Environment) (expr : Expr) : Option Int :=
  (expr.evaluate check env).bind Value.asInt?

/-- The scalar in a lane of a ramp with the base and the stride. -/
def rampLane? (check : RangeCheck) (env : Environment) (base stride : Expr) (index : Nat) :
    Option Value :=
  (base.integer? check env).bind fun first =>
    (stride.integer? check env).map fun step => .int (first + index * step)

/-- A ramp has the base in its first lane, and the stride is added from each lane to the next. -/
theorem lanewise_ramp [check.Lawful] :
    Lanewise check env (ramp dtype base stride count) count (rampLane? check env base stride) := by
  intro value evaluated
  obtain ⟨first, first', step, step', lanes, isBase, isFirst, isStride, isStep, computed, rfl⟩ :=
    evaluate_ramp_eq_some.mp evaluated
  have length : lanes.length = count := by
    rw [← (forall₂_of_mapM computed).length_eq, List.length_range]
  have ofBase : base.integer? check env = some first' := by rw [integer?, isBase]; exact isFirst
  have ofStride : stride.integer? check env = some step' := by rw [integer?, isStride]; exact isStep
  refine ⟨lanes, rfl, length, fun index inside => ?_⟩
  have isLane := getElem?_of_mapM computed index
  rw [List.getElem?_range inside, Option.bind_some] at isLane
  rw [isLane, rampLane?, ofBase, ofStride, Option.bind_some, Option.map_some]
  -- The integer passes the check, since the ramp has a value.
  rw [List.getElem?_eq_getElem (length ▸ inside)] at isLane
  obtain ⟨number, isNumber, -⟩ := Option.map_eq_some_iff.mp isLane.symm
  rw [isNumber, Option.map_some, RangeCheck.Lawful.unchanged isNumber]

/-- An operator on vectors works on each lane alone. -/
theorem Lanewise.binary (several : 2 ≤ count) (isLeft : Lanewise check env lhs count left)
    (isRight : Lanewise check env rhs count right) :
    Lanewise check env (binary dtype op lhs rhs) count fun index => (left index).bind fun x =>
      (right index).bind (Scalar.binary? check lhs.dtype.element op x) := by
  intro value evaluated
  obtain ⟨first, second, lanes, isFirst, isSecond, computed, rfl⟩ :=
    evaluate_binary_eq_some.mp evaluated
  obtain ⟨xs, rfl, length, areXs⟩ := isLeft first isFirst
  obtain ⟨ys, rfl, length', areYs⟩ := isRight second isSecond
  have together : lanes.length = count := by
    rw [← (forall₂_of_mapM computed).length_eq, Value.toLanes, Value.toLanes, List.length_zip,
      length, length', Nat.min_self]
  refine ⟨lanes, Value.ofLanes_of_length (by omega), together, fun index inside => ?_⟩
  dsimp only
  rw [← areXs index inside, ← areYs index inside, getElem?_of_mapM computed]
  have inXs : index < xs.length := length ▸ inside
  have inYs : index < ys.length := length' ▸ inside
  simp [Value.toLanes, List.getElem?_eq_getElem inXs, List.getElem?_eq_getElem inYs,
    List.getElem?_eq_getElem (l := List.zip xs ys) (i := index) (by simp [inXs, inYs])]

/-- A function of scalars that is applied to a vector is applied to each lane. -/
theorem lanes_of_mapM {f : Value → Option Value} {xs lanes : List Value} (several : 2 ≤ count)
    (length : xs.length = count) (areXs : ∀ index, index < count → xs[index]? = left index)
    (computed : xs.mapM f = some lanes) :
    ∃ results, Value.ofLanes lanes = .vector results ∧ results.length = count ∧
      ∀ index, index < count → results[index]? = (left index).bind f := by
  have together : lanes.length = count := (forall₂_of_mapM computed).length_eq.symm.trans length
  refine ⟨lanes, Value.ofLanes_of_length (by omega), together, fun index inside => ?_⟩
  rw [← areXs index inside, getElem?_of_mapM computed]

theorem Lanewise.not (several : 2 ≤ count) (isOperand : Lanewise check env operand count left) :
    Lanewise check env (not dtype operand) count fun index =>
      (left index).bind fun lane => lane.asBool?.map fun truth => .bool (!truth) := by
  intro value evaluated
  obtain ⟨first, lanes, isFirst, computed, rfl⟩ := evaluate_not_eq_some.mp evaluated
  obtain ⟨xs, rfl, length, areXs⟩ := isOperand first isFirst
  exact lanes_of_mapM several length areXs computed

theorem Lanewise.cast (several : 2 ≤ count) (isOperand : Lanewise check env operand count left) :
    Lanewise check env (cast dtype operand) count fun index =>
      (left index).bind (Scalar.cast? check dtype.element) := by
  intro value evaluated
  obtain ⟨first, lanes, isFirst, computed, rfl⟩ := evaluate_cast_eq_some.mp evaluated
  obtain ⟨xs, rfl, length, areXs⟩ := isOperand first isFirst
  exact lanes_of_mapM several length areXs computed

/-! ### Scalars in the lanes -/

/-- The expression is well typed and has the type of the lanes of a vector type. -/
structure OfLanes (vector : DataType) (expr : Expr) : Prop where
  typed : expr.WellTyped
  isType : expr.dtype = vector.element

theorem OfLanes.ofKind {vector : DataType} (ofLanes : OfLanes vector a) (kinded : env.Kinded)
    (evaluated : a.evaluate check env = some x) : x.OfKind vector.element :=
  ofLanes.isType ▸ (evaluate_kinded ofLanes.typed kinded evaluated).ofKind
    (congrArg DataType.lanes ofLanes.isType)

theorem WellTyped.of_broadcast (typed : (broadcast dtype a count).WellTyped) :
    OfLanes dtype a ∧ 2 ≤ count ∧ dtype.lanes = count := by
  rw [WellTyped] at typed
  obtain ⟨isA, scalar, several, rfl⟩ := typed
  refine ⟨⟨isA, ?_⟩, several, rfl⟩
  rw [DataType.element_withLanes, DataType.element_of_lanes_eq_one scalar]

theorem WellTyped.of_ramp (typed : (ramp dtype a b count).WellTyped) :
    OfLanes dtype a ∧ OfLanes dtype b ∧ 2 ≤ count ∧ dtype.lanes = count := by
  rw [WellTyped] at typed
  obtain ⟨isA, isB, same, scalar, several, rfl⟩ := typed
  have element : a.dtype = (a.dtype.withLanes count).element := by
    rw [DataType.element_withLanes, DataType.element_of_lanes_eq_one scalar]
  exact ⟨⟨isA, element⟩, ⟨isB, same ▸ element⟩, several, rfl⟩

/-- The value of the negation of a scalar. -/
theorem OfLanes.evaluate_not {vector : DataType} (isA : OfLanes vector a) (kinded : env.Kinded)
    {built : Expr} (builds : not? a = some built) (evaluated : built.evaluate check env = some value) :
    ∃ x, a.evaluate check env = some x ∧ (x.asBool?.map fun truth => .bool (!truth)) = some value := by
  obtain ⟨-, rfl⟩ := not?_eq_some builds
  obtain ⟨x, lanes, isX, computed, rfl⟩ := evaluate_not_eq_some.mp evaluated
  rw [isA.isType, show vector.element.lanes = 1 from rfl, (isA.ofKind kinded isX).toLanes_one,
    mapM_eq_some_iff_map, List.map_singleton] at computed
  obtain ⟨lane, rfl, isLane⟩ := List.map_eq_singleton_iff.mp computed.symm
  exact ⟨x, isX, isLane.symm⟩

/-- The value of the conversion of a scalar. -/
theorem OfLanes.evaluate_cast {vector : DataType} (isA : OfLanes vector a) (kinded : env.Kinded)
    (evaluated : (cast dtype.element a).evaluate check env = some value) :
    ∃ x, a.evaluate check env = some x ∧ Scalar.cast? check dtype.element x = some value := by
  obtain ⟨x, -, isX, -⟩ := evaluate_cast_eq_some.mp evaluated
  have converts : (cast dtype.element a).evaluate check env = Scalar.cast? check dtype.element x :=
    evaluate_cast_scalar rfl isX (isA.ofKind kinded isX)
  exact ⟨x, isX, converts.symm.trans evaluated⟩

theorem OfLanes.zeroType {vector : DataType} (isA : OfLanes vector a) :
    (ofInt a.dtype 0).dtype = vector.element :=
  (hasType_ofInt isA.typed.coherent.sound 0).isType.trans isA.isType

/-- Zero as a constant of the type of a scalar that stands for an integer. -/
theorem OfLanes.ofInt_zero {vector : DataType} (isA : OfLanes vector a) (kinded : env.Kinded) {step : Int}
    (isStep : a.integer? check env = some step) :
    OfLanes vector (ofInt a.dtype 0) ∧ (ofInt a.dtype 0).integer? check env = some 0 := by
  obtain ⟨value, evaluated, isInt⟩ := Option.bind_eq_some_iff.mp isStep
  have notFloat := (evaluate_kinded isA.typed kinded evaluated).notFloat_of_asInt? isInt
  have yields : Yields check env _ _ _ := yields_ofInt kinded isA.typed.valid notFloat
    (DataType.fits_zero notFloat)
  refine ⟨⟨yields.typed, yields.isType.trans isA.isType⟩, ?_⟩
  have scalar : a.dtype.isVector = false := by rw [isA.isType]; rfl
  unfold ofInt scalarOfInt
  rw [if_neg (by simp [scalar]), if_neg (by simp [notFloat])]
  split <;> rfl

section Scalars

variable {vector : DataType} (isA : OfLanes vector a) (isB : OfLanes vector b)
  (kinded : env.Kinded)

include isA isB kinded

/-- The value of an operator on two scalars of one type. -/
theorem OfLanes.evaluate_binary {built : Expr} (builds : binary? op a b = some built)
    (evaluated : built.evaluate check env = some value) :
    ∃ x y, a.evaluate check env = some x ∧ b.evaluate check env = some y ∧
      Scalar.binary? check vector.element op x y = some value := by
  obtain ⟨rfl, -⟩ := binary?_eq_some (isA.isType.trans isB.isType.symm) builds
  obtain ⟨x, y, -, isX, isY, -⟩ := evaluate_binary_eq_some.mp evaluated
  have scalar : a.dtype.lanes = 1 := congrArg DataType.lanes isA.isType
  have computed : (binary (binaryType op a.dtype) op a b).evaluate check env =
      Scalar.binary? check a.dtype.element op x y :=
    evaluate_binary_scalar ((lanes_binaryType op _).trans scalar) isX isY
      (isA.isType ▸ isA.ofKind kinded isX) (isB.isType ▸ isB.ofKind kinded isY)
  rw [evaluated, isA.isType] at computed
  exact ⟨x, y, isX, isY, computed.symm⟩

/-- The integer of a node of two scalars that stand for integers. -/
theorem OfLanes.integer?_binary [check.Lawful] {built : Expr} {first second number : Int}
    (builds : binary? op a b = some built) (isFirst : a.integer? check env = some first)
    (isSecond : b.integer? check env = some second) (isNumber : built.integer? check env = some number) :
    op.onLane first second = some number := by
  obtain ⟨value, evaluated, isInt⟩ := Option.bind_eq_some_iff.mp isNumber
  obtain ⟨x, y, isX, isY, computed⟩ := isA.evaluate_binary isB kinded builds evaluated
  rw [integer?, isX] at isFirst
  rw [integer?, isY] at isSecond
  have notFloat : vector.element.isFloat = false :=
    isA.isType ▸ (evaluate_kinded isA.typed kinded isX).notFloat_of_asInt? isFirst
  obtain ⟨p, isP, q, isQ, made⟩ :=
    Scalar.onLane_of_binary? (isA.ofKind kinded isX) notFloat computed isInt
  cases isP.symm.trans isFirst
  cases isQ.symm.trans isSecond
  exact made

end Scalars

/-! ### Arithmetic progressions -/

/-- Where a lane has an integer, it is the first one with the step added once for each lane before. -/
def Progresses (lane : Nat → Option Value) (first step : Option Int) : Prop :=
  ∀ index number, lane index = some (.int number) →
    ∃ p q, first = some p ∧ step = some q ∧ number = p + index * q

theorem rampLane?_eq_some : rampLane? check env base stride index = some x ↔
    ∃ first, base.integer? check env = some first ∧ ∃ step, stride.integer? check env = some step ∧
      .int (first + index * step) = x := by
  simp [rampLane?, Option.bind_eq_some_iff]

theorem rampLane?_progresses :
    Progresses (rampLane? check env base stride) (base.integer? check env)
    (stride.integer? check env) := by
  intro index number isLane
  obtain ⟨p, isFirst, q, isStep, equal⟩ := rampLane?_eq_some.mp isLane
  exact ⟨p, q, isFirst, isStep, (Value.int.inj equal).symm⟩

theorem evaluate_progresses :
    Progresses (fun _ => a.evaluate check env) (a.integer? check env) (some 0) := by
  intro index number isLane
  refine ⟨number, 0, ?_, rfl, by simp⟩
  dsimp only at isLane
  rw [integer?, isLane]
  rfl

/-- A ramp that is built of two scalars of one type has their integers. -/
theorem lanewise_of_ramp? [check.Lawful] (same : base.dtype = stride.dtype)
    (builds : ramp? base stride count = some result) :
    Lanewise check env result count (rampLane? check env base stride) := by
  obtain ⟨rfl, -⟩ := ramp?_eq_some builds
  rw [unify_of_eq same]
  exact lanewise_ramp

/-- A ramp takes the place of arithmetic on two vectors, one of which has integers in its lanes, if
its integers are those that the operator gives. -/
theorem sameIn_of_ramp? [check.Lawful] (arithmetic : op.opClass = .arithmetic) (several : 2 ≤ count)
    (isLeft : Lanewise check env lhs count left) (isRight : Lanewise check env rhs count right)
    (ints : (∀ index x, left index = some x → ∃ number, x = .int number) ∨
      ∀ index y, right index = some y → ∃ number, y = .int number)
    (same : base.dtype = stride.dtype) (builds : ramp? base stride count = some result)
    (reads : ∀ index p q r first step, left index = some (.int p) → right index = some (.int q) →
      base.integer? check env = some first → stride.integer? check env = some step →
        op.onLane p q = some r →
      r = first + index * step) : SameIn check env (binary dtype op lhs rhs) result := by
  refine (isLeft.binary several isRight).sameIn (lanewise_of_ramp? same builds) ?_
  intro index v w isV isW
  obtain ⟨x, isX, rest⟩ := Option.bind_eq_some_iff.mp isV
  obtain ⟨y, isY, computed⟩ := Option.bind_eq_some_iff.mp rest
  have isInt : (∃ number, x = .int number) ∨ ∃ number, y = .int number :=
    ints.imp (fun isInt => isInt index x isX) fun isInt => isInt index y isY
  obtain ⟨p, q, r, rfl, rfl, rfl, made⟩ := Scalar.ints_of_binary? arithmetic isInt computed
  obtain ⟨first, isFirst, step, isStep, rfl⟩ := rampLane?_eq_some.mp isW
  exact congrArg Value.int (reads index p q r first step isX isY isFirst isStep made)

/-- A sum of two progressions is one, and so is a difference. -/
theorem onLane_progression {first second step step' base stride index result : Int}
    (isSum : op = .add ∨ op = .sub) (ofBases : op.onLane first second = some base)
    (ofSteps : op.onLane step step' = some stride)
    (computed : op.onLane (first + index * step) (second + index * step') = some result) :
    result = base + index * stride := by
  rcases isSum with rfl | rfl <;>
  · cases ofBases
    cases ofSteps
    cases computed
    ring

theorem sameIn_of_sum [check.Lawful] {p q p' q' : Option Int} (isSum : op = .add ∨ op = .sub)
    (several : 2 ≤ count) (isLeft : Lanewise check env lhs count left)
    (isRight : Lanewise check env rhs count right)
    (ints : (∀ index x, left index = some x → ∃ number, x = .int number) ∨
      ∀ index y, right index = some y → ∃ number, y = .int number)
    (leftProgresses : Progresses left p q) (rightProgresses : Progresses right p' q')
    (same : base.dtype = stride.dtype) (builds : ramp? base stride count = some result)
    (ofBase : ∀ first second number, p = some first → p' = some second →
      base.integer? check env = some number → op.onLane first second = some number)
    (ofStride : ∀ step step' number, q = some step → q' = some step' →
      stride.integer? check env = some number → op.onLane step step' = some number) :
    SameIn check env (binary dtype op lhs rhs) result := by
  refine sameIn_of_ramp? (BinaryOp.arithmetic_of_isSum isSum) several isLeft isRight ints same builds ?_
  intro index x y r first step isX isY isFirst isStep computed
  obtain ⟨a, d, isA, isD, rfl⟩ := leftProgresses index x isX
  obtain ⟨b, e, isB, isE, rfl⟩ := rightProgresses index y isY
  exact onLane_progression isSum (ofBase a b first isA isB isFirst) (ofStride d e step isD isE isStep)
    computed

/-- The product of a progression and a number is the progression of the products. -/
theorem OfLanes.product_of_progression [check.Lawful] {vector : DataType} {s : Expr}
    (isA : OfLanes vector a)
    (isS : OfLanes vector s) (isB : OfLanes vector b) (kinded : env.Kinded)
    (buildsBase : binary? .mul a b = some base) (buildsStride : binary? .mul s b = some stride)
    {p q first step : Int} (isP : rampLane? check env a s index = some (.int p))
    (isQ : b.evaluate check env = some (.int q)) (isFirst : base.integer? check env = some first)
    (isStep : stride.integer? check env = some step) : p * q = first + index * step := by
  obtain ⟨start, isStart, increment, isIncrement, equal⟩ := rampLane?_eq_some.mp isP
  cases equal
  have isNumber : b.integer? check env = some q := by rw [integer?, isQ]; rfl
  have ofBase := isA.integer?_binary isB kinded buildsBase isStart isNumber isFirst
  have ofStride := isS.integer?_binary isB kinded buildsStride isIncrement isNumber isStep
  cases ofBase
  cases ofStride
  ring

end Expr

namespace Reduction.Lanes

open IndexAlgebra.Expr

attribute [local simp] Option.bind_eq_some_iff Option.guard_eq_some'

variable {check : RangeCheck} [check.Lawful] {env : Environment}
  {expr result lhs rhs a b s base stride : Expr} {op : BinaryOp}
  {dtype vector : DataType} {count : Nat}

/-! ### Rules -/

omit [check.Lawful] in
theorem sameIn_broadcastOp (typed : expr.WellTyped) (kinded : env.Kinded)
    (applies : broadcastOp? expr = some result) : SameIn check env expr result := by
  simp [broadcastOp?] at applies
  obtain ⟨op, a, count, b, ⟨vector, count', secondType, dtype, rfl⟩, scalar, builds, rfl⟩ := applies
  rw [WellTyped] at typed
  obtain ⟨left, right, same, -⟩ := typed
  cases same
  obtain ⟨isA, several, rfl⟩ := left.of_broadcast
  obtain ⟨isB, -, rfl⟩ := right.of_broadcast
  refine (lanewise_broadcast.binary several lanewise_broadcast).sameIn lanewise_broadcast ?_
  intro index v w isV isW
  obtain ⟨x, y, isX, isY, computed⟩ := isA.evaluate_binary isB kinded builds isW
  obtain ⟨x', isX', rest⟩ := Option.bind_eq_some_iff.mp isV
  obtain ⟨y', isY', computed'⟩ := Option.bind_eq_some_iff.mp rest
  cases isX.symm.trans isX'
  cases isY.symm.trans isY'
  exact Option.some.inj (computed'.symm.trans computed)

omit [check.Lawful] in
/-- The lanes of a ramp are integers. -/
theorem exists_int_of_rampLane? (index : Nat) (x : Value)
    (isLane : rampLane? check env base stride index = some x) : ∃ number, x = .int number := by
  obtain ⟨first, -, step, -, rfl⟩ := rampLane?_eq_some.mp isLane
  exact ⟨_, rfl⟩

/-- Arithmetic on two scalars has their type. -/
theorem isType_of_arithmetic (arithmetic : op.opClass = .arithmetic) {operand : DataType}
    (leftType : a.dtype = operand) (rightType : b.dtype = operand)
    (builds : binary? op a b = some result) : result.dtype = operand := by
  obtain ⟨rfl, -⟩ := binary?_eq_some (leftType.trans rightType.symm) builds
  exact (binaryType_of_arithmetic arithmetic).trans leftType

theorem sameIn_rampAddRamp (typed : expr.WellTyped) (kinded : env.Kinded)
    (applies : rampAddRamp? expr = some result) : SameIn check env expr result := by
  simp [rampAddRamp?] at applies
  obtain ⟨op, a, s, count, b, t, ⟨vector, count', secondType, dtype, rfl⟩, isSum, base, buildsBase,
    stride, buildsStride, builds⟩ := applies
  rw [WellTyped] at typed
  obtain ⟨left, right, same, -⟩ := typed
  cases same
  obtain ⟨isA, isS, several, rfl⟩ := left.of_ramp
  obtain ⟨isB, isT, -, rfl⟩ := right.of_ramp
  exact sameIn_of_sum isSum several lanewise_ramp lanewise_ramp (.inl exists_int_of_rampLane?)
    rampLane?_progresses rampLane?_progresses
    ((isType_of_arithmetic (BinaryOp.arithmetic_of_isSum isSum) isA.isType isB.isType buildsBase).trans
      (isType_of_arithmetic (BinaryOp.arithmetic_of_isSum isSum) isS.isType isT.isType buildsStride).symm)
    builds (fun _ _ _ => isA.integer?_binary isB kinded buildsBase)
    (fun _ _ _ => isS.integer?_binary isT kinded buildsStride)

theorem onLane_zero_right (isSum : op = .add ∨ op = .sub) (number : Int) :
    op.onLane number 0 = some number := by
  rcases isSum with rfl | rfl <;> simp [BinaryOp.onLane]

theorem sameIn_rampAddBroadcast (typed : expr.WellTyped) (kinded : env.Kinded)
    (applies : rampAddBroadcast? expr = some result) : SameIn check env expr result := by
  obtain ⟨dtype, op, vector, a, s, count, secondType, b, count', base, isSum, shape⟩ :=
    rampAddBroadcast?_cases applies
  rcases shape with ⟨rfl, buildsBase, builds⟩ | ⟨rfl, buildsBase, stride, builds, isStride⟩
  · rw [WellTyped] at typed
    obtain ⟨left, right, same, -⟩ := typed
    cases same
    obtain ⟨isA, isS, several, rfl⟩ := left.of_ramp
    obtain ⟨isB, -, rfl⟩ := right.of_broadcast
    refine sameIn_of_sum isSum several lanewise_ramp lanewise_broadcast
      (.inl exists_int_of_rampLane?) rampLane?_progresses evaluate_progresses
      ((isType_of_arithmetic (BinaryOp.arithmetic_of_isSum isSum) isA.isType isB.isType buildsBase).trans
        isS.isType.symm) builds
      (fun _ _ _ => isA.integer?_binary isB kinded buildsBase) ?_
    intro step zero number isStep isZero isNumber
    cases isZero
    cases isStep.symm.trans isNumber
    exact onLane_zero_right isSum step
  · rw [WellTyped] at typed
    obtain ⟨left, right, same, -⟩ := typed
    cases same
    obtain ⟨isA, isS, several, rfl⟩ := right.of_ramp
    obtain ⟨isB, -, rfl⟩ := left.of_broadcast
    have ofStride : stride.dtype = vector.element ∧ ∀ zero step number, some 0 = some zero →
        s.integer? check env = some step → stride.integer? check env = some number →
        op.onLane zero step = some number := by
      rcases isStride with ⟨rfl, rfl⟩ | ⟨rfl, buildsStride⟩
      · refine ⟨isS.isType, fun zero step number isZero isStep isNumber => ?_⟩
        cases isZero
        cases isStep.symm.trans isNumber
        exact congrArg some (Int.zero_add step)
      · refine ⟨isType_of_arithmetic rfl isS.zeroType isS.isType buildsStride, ?_⟩
        intro zero step number ofZero isStep isNumber
        cases ofZero
        obtain ⟨isZero, integerZero⟩ := isS.ofInt_zero kinded isStep
        exact isZero.integer?_binary isS kinded buildsStride integerZero isStep isNumber
    exact sameIn_of_sum isSum several lanewise_broadcast lanewise_ramp
      (.inr exists_int_of_rampLane?) evaluate_progresses rampLane?_progresses
      ((isType_of_arithmetic (BinaryOp.arithmetic_of_isSum isSum) isB.isType isA.isType buildsBase).trans
        ofStride.1.symm) builds
      (fun _ _ _ => isB.integer?_binary isA kinded buildsBase) ofStride.2

theorem isType_of_products (isA : OfLanes vector a) (isS : OfLanes vector s)
    (isB : OfLanes vector b) (buildsBase : binary? .mul a b = some base)
    (buildsStride : binary? .mul s b = some stride) : base.dtype = stride.dtype :=
  (isType_of_arithmetic rfl isA.isType isB.isType buildsBase).trans
    (isType_of_arithmetic rfl isS.isType isB.isType buildsStride).symm

theorem sameIn_rampMulBroadcast (typed : expr.WellTyped) (kinded : env.Kinded)
    (applies : rampMulBroadcast? expr = some result) : SameIn check env expr result := by
  obtain ⟨dtype, lhs, rhs, a, s, count, b, base, stride, vector, secondType, count', rfl, operands,
    buildsBase, buildsStride, builds⟩ := rampMulBroadcast?_cases applies
  rw [WellTyped] at typed
  obtain ⟨left, right, same, -⟩ := typed
  rcases operands with ⟨rfl, rfl⟩ | ⟨rfl, rfl⟩
  · cases same
    obtain ⟨isA, isS, several, rfl⟩ := left.of_ramp
    obtain ⟨isB, -, rfl⟩ := right.of_broadcast
    refine sameIn_of_ramp? rfl several lanewise_ramp lanewise_broadcast
      (.inl exists_int_of_rampLane?) (isType_of_products isA isS isB buildsBase buildsStride) builds ?_
    intro index p q r first step isP isQ isFirst isStep computed
    cases computed
    exact isA.product_of_progression isS isB kinded buildsBase buildsStride isP isQ isFirst isStep
  · cases same
    obtain ⟨isA, isS, several, rfl⟩ := right.of_ramp
    obtain ⟨isB, -, rfl⟩ := left.of_broadcast
    refine sameIn_of_ramp? rfl several lanewise_broadcast lanewise_ramp
      (.inr exists_int_of_rampLane?) (isType_of_products isA isS isB buildsBase buildsStride) builds ?_
    intro index p q r first step isP isQ isFirst isStep computed
    cases computed
    rw [Int.mul_comm]
    exact isA.product_of_progression isS isB kinded buildsBase buildsStride isQ isP isFirst isStep

theorem sameIn_rampZeroStride (typed : expr.WellTyped) (kinded : env.Kinded)
    (applies : rampZeroStride? expr = some result) : SameIn check env expr result := by
  simp [rampZeroStride?] at applies
  obtain ⟨base, count, ⟨constType, vector, rfl⟩, rfl⟩ := applies
  obtain ⟨isBase, isZero, several, rfl⟩ := typed.of_ramp
  have isInteger : vector.element.isInteger = true := by
    have constTyped := isZero.typed
    rw [WellTyped] at constTyped
    exact isZero.isType ▸ constTyped.2.1
  refine lanewise_ramp.sameIn lanewise_broadcast ?_
  intro index x y isX isY
  obtain ⟨first, isFirst, step, isStep, rfl⟩ := rampLane?_eq_some.mp isX
  obtain ⟨number, rfl⟩ := (isBase.ofKind kinded isY).exists_int isInteger
  rw [integer?, isY] at isFirst
  cases isFirst
  cases isStep
  rw [Int.mul_zero, Int.add_zero]

omit [check.Lawful] in
theorem sameIn_broadcastUnary (typed : expr.WellTyped) (kinded : env.Kinded)
    (applies : broadcastUnary? expr = some result) : SameIn check env expr result := by
  simp [broadcastUnary?] at applies
  split at applies
  next dtype vector a count =>
    obtain ⟨scalar, builds, equal⟩ := Option.bind_eq_some_iff.mp applies
    cases equal
    rw [WellTyped] at typed
    obtain ⟨operand, rfl, -⟩ := typed
    obtain ⟨isA, several, isCount⟩ := operand.of_broadcast
    have isLanes : Expr.lanes (.not dtype (broadcast dtype a count)) = count := isCount
    rw [isLanes]
    refine (lanewise_broadcast.not several).sameIn lanewise_broadcast ?_
    intro index v w isV isW
    obtain ⟨x, isX, computed⟩ := isA.evaluate_not kinded builds isW
    rw [isX] at isV
    exact Option.some.inj (isV.symm.trans computed)
  next dtype vector a count =>
    cases applies
    rw [WellTyped] at typed
    obtain ⟨operand, -, sameLanes⟩ := typed
    obtain ⟨isA, several, isCount⟩ := operand.of_broadcast
    have isLanes : dtype.lanes = count := sameLanes.trans isCount
    rw [Expr.lanes, Expr.dtype, isLanes]
    refine (lanewise_broadcast.cast several).sameIn lanewise_broadcast ?_
    intro index v w isV isW
    obtain ⟨x, isX, computed⟩ := isA.evaluate_cast kinded isW
    rw [isX] at isV
    exact Option.some.inj (isV.symm.trans computed)
  next => cases applies

/-! ### Forms that are rewritten -/

/-- The forms of vector expressions that a rule is for. -/
inductive Movable : Expr → Prop
  | operator (dtype : DataType) (op : BinaryOp) (first second : DataType) (a b : Expr) (n m : Nat) :
    Movable (binary dtype op (broadcast first a n) (broadcast second b m))
  | ramps (dtype : DataType) {op : BinaryOp} (isSum : op = .add ∨ op = .sub)
    (first second : DataType) (a s b t : Expr) (n m : Nat) :
    Movable (binary dtype op (ramp first a s n) (ramp second b t m))
  | rampBroadcast (dtype : DataType) {op : BinaryOp} (isLinear : op = .add ∨ op = .sub ∨ op = .mul)
    (first second : DataType) (a s b : Expr) (n m : Nat) :
    Movable (binary dtype op (ramp first a s n) (broadcast second b m))
  | broadcastRamp (dtype : DataType) {op : BinaryOp} (isLinear : op = .add ∨ op = .sub ∨ op = .mul)
    (first second : DataType) (a s b : Expr) (n m : Nat) :
    Movable (binary dtype op (broadcast second b m) (ramp first a s n))
  | zeroStride (dtype constType : DataType) (a : Expr) (n : Nat) :
    Movable (ramp dtype a (intConst constType 0) n)
  | negation (dtype vector : DataType) (a : Expr) (n : Nat) :
    Movable (not dtype (broadcast vector a n))
  | conversion (dtype vector : DataType) (a : Expr) (n : Nat) :
    Movable (cast dtype (broadcast vector a n))

theorem binary?_of_same (op : BinaryOp) (same : lhs.dtype = rhs.dtype)
    (truths : op.isLogical = true → lhs.dtype.isBool = true) :
    binary? op lhs rhs = some (binary (binaryType op lhs.dtype) op lhs rhs) := by
  have types : (Form.ofOp op).checkTypes lhs rhs = .ok () := if_pos same
  unfold binary? mkBinary
  rw [unify_of_eq same]
  dsimp only
  rw [types]
  by_cases logical : op.isLogical = true
  · have checks : (Form.ofOp op).checkLogical lhs rhs = .ok () := by
      simp [Form.checkLogical, ← same, truths logical]
    rw [if_pos logical, checks]
    rfl
  · rw [if_neg logical]
    rfl

theorem ramp?_of_same (same : base.dtype = stride.dtype) (scalar : base.dtype.isVector = false) :
    ramp? base stride count = some (ramp (base.dtype.withLanes count) base stride count) := by
  have types : (Form.called "ramp").checkTypes base stride = .ok () := if_pos same
  unfold ramp? mkRamp
  rw [unify_of_eq same]
  dsimp only
  rw [types, if_neg (by simp [scalar])]
  rfl

/-- Arithmetic on two scalars of the lanes is built, and has their type. -/
theorem exists_arithmetic (op : BinaryOp) (arithmetic : op.opClass = .arithmetic) {operand : DataType}
    (leftType : a.dtype = operand) (rightType : b.dtype = operand) :
    ∃ built, binary? op a b = some built ∧ built.dtype = operand := by
  have notLogical : ¬op.isLogical = true := by
    rw [BinaryOp.isLogical, arithmetic]
    decide
  have builds := binary?_of_same op (leftType.trans rightType.symm) (fun logical => absurd logical notLogical)
  exact ⟨_, builds, isType_of_arithmetic arithmetic leftType rightType builds⟩

theorem exists_ramp (count : Nat) (baseType : base.dtype = vector.element)
    (strideType : stride.dtype = vector.element) :
    ∃ built, ramp? base stride count = some built :=
  ⟨_, ramp?_of_same (baseType.trans strideType.symm) (by rw [baseType]; rfl)⟩

theorem exists_product (isA : OfLanes vector a) (isS : OfLanes vector s) (isB : OfLanes vector b)
    (count : Nat) : ∃ result base, binary? .mul a b = some base ∧ ∃ stride,
      binary? .mul s b = some stride ∧ ramp? base stride count = some result := by
  obtain ⟨base, buildsBase, baseType⟩ := exists_arithmetic .mul rfl isA.isType isB.isType
  obtain ⟨stride, buildsStride, strideType⟩ :=
    exists_arithmetic .mul rfl isS.isType isB.isType
  obtain ⟨result, builds⟩ := exists_ramp count baseType strideType
  exact ⟨result, base, buildsBase, stride, buildsStride, builds⟩

/-- Every well-typed expression of such a form is rewritten by a rule. -/
theorem Movable.rewritten (movable : Movable expr) (typed : expr.WellTyped) :
    ∃ rule ∈ rules, ∃ result, ∀ answers, rule.Rewrites answers expr result := by
  have applied : ∀ step (apply : Expr → Option Expr), Rule.pure step apply ∈ rules →
      (∃ result, apply expr = some result) → ∃ rule ∈ rules, ∃ result, ∀ answers,
        rule.Rewrites answers expr result :=
    fun step apply member ⟨result, applies⟩ => ⟨_, member, result, fun _ => applies⟩
  cases movable with
  | operator dtype op first second a b n m =>
    rw [WellTyped] at typed
    obtain ⟨left, right, same, -, truths⟩ := typed
    cases same
    have builds := binary?_of_same op
      (left.of_broadcast.1.isType.trans right.of_broadcast.1.isType.symm) fun logical => by
        rw [left.of_broadcast.1.isType, DataType.isBool_element]
        exact truths logical
    refine applied .broadcastOp broadcastOp? (by simp [rules]) ?_
    simp [broadcastOp?, asBinary?, asBroadcast?, builds]
  | ramps dtype isSum first second a s b t n m =>
    rw [WellTyped] at typed
    obtain ⟨left, right, same, -⟩ := typed
    cases same
    obtain ⟨isA, isS, -⟩ := left.of_ramp
    obtain ⟨isB, isT, -⟩ := right.of_ramp
    have arithmetic := BinaryOp.arithmetic_of_isSum isSum
    obtain ⟨base, buildsBase, baseType⟩ := exists_arithmetic _ arithmetic isA.isType isB.isType
    obtain ⟨stride, buildsStride, strideType⟩ := exists_arithmetic _ arithmetic isS.isType isT.isType
    obtain ⟨result, builds⟩ := exists_ramp n baseType strideType
    refine applied .rampAddRamp rampAddRamp? (by simp [rules]) ⟨result, ?_⟩
    simp [rampAddRamp?, asBinary?, asRamp?, isSum, buildsBase, buildsStride, builds]
  | rampBroadcast dtype isLinear first second a s b n m =>
    rw [WellTyped] at typed
    obtain ⟨left, right, same, -⟩ := typed
    cases same
    obtain ⟨isA, isS, -⟩ := left.of_ramp
    obtain ⟨isB, -⟩ := right.of_broadcast
    rcases or_assoc.mpr isLinear with isSum | rfl
    · obtain ⟨base, buildsBase, baseType⟩ :=
        exists_arithmetic _ (BinaryOp.arithmetic_of_isSum isSum) isA.isType isB.isType
      obtain ⟨result, builds⟩ := exists_ramp n baseType isS.isType
      refine applied .rampAddBroadcast rampAddBroadcast? (by simp [rules]) ⟨result, ?_⟩
      simp [rampAddBroadcast?, asBinary?, asRamp?, asBroadcast?, isSum, buildsBase, builds]
    · obtain ⟨result, builds⟩ := exists_product isA isS isB n
      refine applied .rampMulBroadcast rampMulBroadcast? (by simp [rules]) ⟨result, ?_⟩
      simpa [rampMulBroadcast?, operands?, asRamp?, asBroadcast?] using builds
  | broadcastRamp dtype isLinear first second a s b n m =>
    rw [WellTyped] at typed
    obtain ⟨left, right, same, -⟩ := typed
    cases same
    obtain ⟨isA, isS, -⟩ := right.of_ramp
    obtain ⟨isB, -⟩ := left.of_broadcast
    rcases or_assoc.mpr isLinear with isSum | rfl
    · obtain ⟨base, buildsBase, baseType⟩ :=
        exists_arithmetic _ (BinaryOp.arithmetic_of_isSum isSum) isB.isType isA.isType
      refine applied .rampAddBroadcast rampAddBroadcast? (by simp [rules]) ?_
      rcases isSum with rfl | rfl
      · obtain ⟨result, builds⟩ := exists_ramp n baseType isS.isType
        exact ⟨result, by
          simp [rampAddBroadcast?, asBinary?, asRamp?, asBroadcast?, buildsBase, builds]⟩
      · obtain ⟨stride, buildsStride, strideType⟩ :=
          exists_arithmetic .sub rfl isS.zeroType isS.isType
        obtain ⟨result, builds⟩ := exists_ramp n baseType strideType
        exact ⟨result, by
          simp [rampAddBroadcast?, asBinary?, asRamp?, asBroadcast?, buildsBase, buildsStride, builds]⟩
    · obtain ⟨result, builds⟩ := exists_product isA isS isB n
      refine applied .rampMulBroadcast rampMulBroadcast? (by simp [rules]) ⟨result, ?_⟩
      simpa [rampMulBroadcast?, operands?, asRamp?, asBroadcast?] using builds
  | zeroStride dtype constType a n =>
    exact applied .rampZeroStride rampZeroStride? (by simp [rules]) ⟨_, rfl⟩
  | negation dtype vector a n =>
    rw [WellTyped] at typed
    obtain ⟨operand, rfl, isBool⟩ := typed
    have truths : a.dtype.isBool = true := by
      rw [operand.of_broadcast.1.isType, DataType.isBool_element]
      exact isBool
    refine applied .broadcastUnary broadcastUnary? (by simp [rules]) ?_
    simp [broadcastUnary?, not?, mkNot, truths, Except.toOption]
  | conversion dtype vector a n =>
    exact applied .broadcastUnary broadcastUnary? (by simp [rules]) ⟨_, rfl⟩

/-! ### The rules -/

/-- The rules for vectors agree with evaluation lane by lane. What a rule makes of a well-typed
expression has its lanes and its element type, and where both have a value, they have the same scalar
in each lane. Every operator on two broadcasts, sums, differences and products of ramps and broadcasts,
strides of zero, and negations and conversions of broadcasts are rewritten so. -/
theorem vectorRules_exact (typed : expr.WellTyped) (kinded : env.Kinded) :
    (∀ rule ∈ rules, ∀ answers result, rule.Rewrites answers expr result →
      result.dtype = expr.dtype ∧ SameValue env expr result) ∧
    (Movable expr → ∃ rule ∈ rules, ∃ result, ∀ answers, rule.Rewrites answers expr result) := by
  refine ⟨fun rule member answers result rewrites => ?_, fun movable => movable.rewritten typed⟩
  have fits := rules_fit answers.evidence expr rule member
  simp only [rules, Rule.pure, List.mem_cons, List.not_mem_nil, or_false] at member
  rcases member with rfl | rfl | rfl | rfl | rfl | rfl <;>
    refine ⟨((fits result rewrites).typed expr.dtype typed.coherent.hasType).isType, ?_⟩
  · exact sameIn_broadcastOp typed kinded rewrites
  · exact sameIn_rampAddRamp typed kinded rewrites
  · exact sameIn_rampAddBroadcast typed kinded rewrites
  · exact sameIn_rampMulBroadcast typed kinded rewrites
  · exact sameIn_rampZeroStride typed kinded rewrites
  · exact sameIn_broadcastUnary typed kinded rewrites

/-- A ramp that is taken from a broadcast has its stride negated. -/
theorem vectorRules_exact_difference :
    let x : Variable := ⟨"x", .int32, false⟩
    let constant := intConst .int32
    let vector := DataType.int32.withLanes 4
    let expr := binary vector .sub (broadcast vector (constant 10) 4) (ramp vector x.expr (constant 3) 4)
    let result := ramp vector (binary .int32 .sub (constant 10) x.expr)
      (binary .int32 .sub (constant 0) (constant 3)) 4
    let env := Environment.empty.set x (.int 2)
    (∃ rule ∈ rules, ∃ result, ∀ answers, rule.Rewrites answers expr result) ∧
      rampAddBroadcast? expr = some result ∧ result.dtype = expr.dtype ∧ SameValue env expr result ∧
      expr.eval env = some (.vector [.int 8, .int 5, .int 2, .int (-1)]) ∧
      result.eval env = expr.eval env := by
  intro x constant vector expr result env
  let answers : Answers := ⟨⟨fun _ => .everything, fun _ => .everything, fun _ => none, []⟩,
    fun _ _ => .unknown⟩
  have typed : expr.WellTyped := by decide
  have kinded : env.Kinded :=
    (Environment.typed_empty.set_int rfl (by decide) (by decide)).kinded
  have rewrites : rampAddBroadcast? expr = some result := by decide +kernel
  obtain ⟨sameType, sameValue⟩ := (vectorRules_exact typed kinded).1
    (.pure .rampAddBroadcast rampAddBroadcast?) (by simp [rules]) answers result rewrites
  exact ⟨(vectorRules_exact typed kinded).2 (.broadcastRamp _ (.inr (.inl rfl)) ..), rewrites,
    sameType, sameValue, rfl, rfl⟩

end Reduction.Lanes

end IndexAlgebra
