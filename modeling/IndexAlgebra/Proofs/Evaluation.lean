/-
This file holds the laws of evaluation that later files build on: the value of a call and the
lanes of several vectors depend on their operands through the operands' values alone, and an
environment with several variables set does not remember the order.
-/
import IndexAlgebra.Evaluation
import IndexAlgebra.Expr.Variables
import IndexAlgebra.Proofs.Typing
import Mathlib.Data.List.Basic
import Mathlib.Data.List.Forall2

namespace IndexAlgebra

/-! ### Lanes -/

/-- A function applied to every element has results in the same order. -/
theorem forall₂_of_mapM {α β : Type} {f : α → Option β} {inputs : List α} {results : List β}
    (equal : inputs.mapM f = some results) :
    List.Forall₂ (fun input result => f input = some result) inputs results := by
  induction inputs generalizing results with
  | nil =>
    rw [List.mapM_nil] at equal
    cases equal
    exact .nil
  | cons input rest inductionHypothesis =>
    rw [List.mapM_cons] at equal
    obtain ⟨first, isFirst, equal⟩ := Option.bind_eq_some_iff.mp equal
    obtain ⟨others, areOthers, equal⟩ := Option.bind_eq_some_iff.mp equal
    cases equal
    exact .cons isFirst (inductionHypothesis areOthers)

/-- Every result of a function applied to a list comes from an element. -/
theorem exists_of_mem_mapM {α β : Type} {f : α → Option β} {inputs : List α} {results : List β}
    (equal : inputs.mapM f = some results) {result : β} (member : result ∈ results) :
    ∃ input ∈ inputs, f input = some result := by
  have paired := forall₂_of_mapM equal
  clear equal
  induction paired with
  | nil => exact absurd member List.not_mem_nil
  | cons isFirst _ inductionHypothesis =>
    rcases List.mem_cons.mp member with rfl | inRest
    · exact ⟨_, List.mem_cons_self, isFirst⟩
    · obtain ⟨input, inInputs, isResult⟩ := inductionHypothesis inRest
      exact ⟨input, List.mem_cons_of_mem _ inInputs, isResult⟩

namespace Value

@[simp]
theorem ints_int (number : Int) : (int number).ints = [number] := by simp [ints]

@[simp]
theorem ints_bool (truth : Bool) : (bool truth).ints = [(truth.toNat : Int)] := by simp [ints]

@[simp]
theorem ints_float (number : Binary64) : (float number).ints = [] := by simp [ints]

@[simp]
theorem mem_ints_vector {number : Int} {lanes : List Value} :
    number ∈ (vector lanes).ints ↔ ∃ lane ∈ lanes, number ∈ lane.ints := by simp [ints]

@[simp]
theorem mem_ints_ofLanes {number : Int} {lanes : List Value} :
    number ∈ (ofLanes lanes).ints ↔ ∃ lane ∈ lanes, number ∈ lane.ints := by
  unfold ofLanes
  split <;> simp

/-- The integers of a lane are integers of the value. -/
theorem mem_ints_of_toLanes {number : Int} {count : Nat} {value lane : Value}
    (isLane : lane ∈ value.toLanes count) (member : number ∈ lane.ints) : number ∈ value.ints := by
  cases value with
  | vector lanes => exact mem_ints_vector.mpr ⟨lane, isLane, member⟩
  | int _ | bool _ | float _ => rwa [List.eq_of_mem_replicate isLane] at member

/-- The integer of a lane of a type fits the type, where a truth value is zero or one. -/
theorem fits_of_mem_ints {dtype : DataType} {lane : Value} {number : Int}
    (inLane : lane.InLane dtype) (member : number ∈ lane.ints) : dtype.fits number = true := by
  cases lane with
  | int value =>
    rw [ints_int, List.mem_singleton] at member
    exact member ▸ inLane.2
  | bool truth =>
    rw [ints_bool, List.mem_singleton] at member
    obtain ⟨code, bits, lanes⟩ := dtype
    cases code <;> try contradiction
    subst member
    cases truth <;> rfl
  | float value =>
    rw [ints_float] at member
    exact absurd member List.not_mem_nil
  | vector lanes => exact inLane.elim

theorem mem_ints_of_asInt? {value : Value} {number : Int} (isInt : value.asInt? = some number) :
    number ∈ value.ints := by
  cases value <;> simp_all [asInt?]

end Value

theorem RangeCheck.checked_eq_some {dtype : DataType} {number checked : Int} :
    RangeCheck.checked dtype number = some checked ↔
      Word.Fits number ∧ dtype.fits number = true ∧ number = checked := by
  rw [RangeCheck.checked, Option.ite_none_right_eq_some, Option.some.injEq, and_assoc,
    DataType.fits_element]

namespace Environment

theorem set_self (env : Environment) (name : Variable) (value : Value) :
    env.set name value name = some value := if_pos rfl

theorem set_of_ne (env : Environment) {name other : Variable} (value : Value)
    (different : other ≠ name) : env.set name value other = env other := if_neg different

/-- The values of an environment that two variables are set in. -/
theorem cases_of_set_set {first second name : Variable} {left right value : Value}
    (isValue : ((empty.set first left).set second right) name = some value) :
    name = second ∧ value = right ∨ name = first ∧ value = left := by
  simp only [set, empty] at isValue
  split at isValue
  next same => exact .inl ⟨same, (Option.some.inj isValue).symm⟩
  next =>
    split at isValue
    next same => exact .inr ⟨same, (Option.some.inj isValue).symm⟩
    next => cases isValue

theorem typed_empty : Environment.empty.Typed := by
  intro name value isValue
  cases isValue

/-- A typed environment stays typed when a variable is given an integer of its scalar type. -/
theorem Typed.set_int {env : Environment} (typed : env.Typed) {name : Variable} {number : Int}
    (scalar : name.dtype.lanes = 1) (fits : (Value.int number).InLane name.dtype)
    (nonNegative : name.nonNegative = true → 0 ≤ number) : (env.set name (.int number)).Typed := by
  intro other value isValue
  by_cases same : other = name
  · rw [same, set_self] at isValue
    cases isValue
    rw [same]
    exact ⟨⟨[.int number], rfl, scalar.symm, by simpa using fits⟩, by simpa using nonNegative⟩
  · rw [set_of_ne env (.int number) same] at isValue
    exact typed other value isValue

end Environment

namespace Expr

/-! ### Nodes with a value -/

attribute [local simp] evaluate Option.bind_eq_some_iff

variable {check : RangeCheck} {env : Environment} {result : Value}

theorem evaluate_cast_eq_some {dtype : DataType} {value : Expr} :
    evaluate check env (cast dtype value) = some result ↔
      ∃ operand lanes, evaluate check env value = some operand ∧
        (operand.toLanes dtype.lanes).mapM (Scalar.cast? check dtype.element) = some lanes ∧
        Value.ofLanes lanes = result := by
  simp

theorem evaluate_binary_eq_some {dtype : DataType} {op : BinaryOp} {lhs rhs : Expr} :
    evaluate check env (binary dtype op lhs rhs) = some result ↔
      ∃ left right lanes, evaluate check env lhs = some left ∧
        evaluate check env rhs = some right ∧
        (List.zip (left.toLanes dtype.lanes) (right.toLanes dtype.lanes)).mapM
          (fun lane => Scalar.binary? check lhs.dtype.element op lane.1 lane.2) = some lanes ∧
        Value.ofLanes lanes = result := by
  simp [zipLanes?]

theorem evaluate_not_eq_some {dtype : DataType} {value : Expr} :
    evaluate check env (not dtype value) = some result ↔
      ∃ operand lanes, evaluate check env value = some operand ∧
        (operand.toLanes dtype.lanes).mapM
          (fun lane => lane.asBool?.map fun truth => .bool (!truth)) = some lanes ∧
        Value.ofLanes lanes = result := by
  simp

theorem evaluate_select_eq_some {dtype : DataType} {cond onTrue onFalse : Expr} :
    evaluate check env (select dtype cond onTrue onFalse) = some result ↔
      ∃ truth taken refused lanes, evaluate check env cond = some truth ∧
        evaluate check env onTrue = some taken ∧ evaluate check env onFalse = some refused ∧
        (List.zip (truth.toLanes dtype.lanes)
          (List.zip (taken.toLanes dtype.lanes) (refused.toLanes dtype.lanes))).mapM
          (fun lane => choose? lane.1 lane.2) = some lanes ∧
        Value.ofLanes lanes = result := by
  simp

theorem evaluate_ramp_eq_some {dtype : DataType} {base stride : Expr} {count : Nat} :
    evaluate check env (ramp dtype base stride count) = some result ↔
      ∃ first first' step step' lanes, evaluate check env base = some first ∧
        first.asInt? = some first' ∧ evaluate check env stride = some step ∧
        step.asInt? = some step' ∧
        (List.range count).mapM (fun (lane : Nat) =>
          (check dtype (first' + lane * step')).map Value.int) = some lanes ∧
        Value.vector lanes = result := by
  simp

theorem evaluate_broadcast_eq_some {dtype : DataType} {value : Expr} {count : Nat} :
    evaluate check env (broadcast dtype value count) = some result ↔
      ∃ operand, evaluate check env value = some operand ∧
        Value.vector (List.replicate count operand) = result := by
  simp

theorem evaluate_shuffle_eq_some {dtype : DataType} {vectors : List Expr} {indices : List Nat} :
    evaluate check env (shuffle dtype vectors indices) = some result ↔
      ∃ lanes chosen, evaluateLanes check env vectors = some lanes ∧
        indices.mapM (fun index => lanes[index]?) = some chosen ∧
        Value.ofLanes chosen = result := by
  simp

theorem evaluate_letIn_eq_some {dtype : DataType} {name : Variable} {value body : Expr} :
    evaluate check env (letIn dtype name value body) = some result ↔
      ∃ bound, evaluate check env value = some bound ∧
        evaluate check (env.set name bound) body = some result := by
  simp

/-! ### Calls and lanes -/

/-- The value of a call from those of its arguments, which it may not need. -/
def callValue (check : RangeCheck) (dtype : DataType) :
    CallOp → List (Option Value) → Option Value
  | .ifThenElse, [cond, onTrue, onFalse] =>
    if dtype.isScalar then do
      let holds ← (← cond).asBool?
      if holds then onTrue else onFalse
    else none
  | .bitwiseNot, [value] =>
    if dtype.isScalar then do
      let value ← (← value).asInt?
      (check dtype (-value - 1)).map .int
    else none
  | op, [lhs, rhs] =>
    if dtype.isScalar then do
      let left ← (← lhs).asInt?
      let right ← (← rhs).asInt?
      let result ← Scalar.bitwise? dtype op left right
      (check dtype result).map .int
    else none
  | _, _ => none

theorem evaluate_call (check : RangeCheck) (env : Environment) (dtype : DataType) (op : CallOp)
    (args : List Expr) :
    evaluate check env (call dtype op args) =
      callValue check dtype op (args.map (evaluate check env)) := by
  match op, args with
  | .ifThenElse, [cond, onTrue, onFalse] => simp [callValue]
  | .bitwiseNot, [value] => simp [callValue]
  | .ifThenElse, [] | .ifThenElse, [_] | .ifThenElse, _ :: _ :: _ :: _ :: _
  | .bitwiseNot, [] | .bitwiseNot, _ :: _ :: _ :: _
  | .shiftLeft, [] | .shiftLeft, [_] | .shiftLeft, _ :: _ :: _ :: _
  | .shiftRight, [] | .shiftRight, [_] | .shiftRight, _ :: _ :: _ :: _
  | .bitwiseAnd, [] | .bitwiseAnd, [_] | .bitwiseAnd, _ :: _ :: _ :: _
  | .bitwiseOr, [] | .bitwiseOr, [_] | .bitwiseOr, _ :: _ :: _ :: _
  | .bitwiseXor, [] | .bitwiseXor, [_] | .bitwiseXor, _ :: _ :: _ :: _
  | .external _, [] | .external _, [_] | .external _, _ :: _ :: _ :: _ =>
    simp [callValue]
  | .ifThenElse, [_, _] | .bitwiseNot, [_, _] | .shiftLeft, [_, _] | .shiftRight, [_, _]
  | .bitwiseAnd, [_, _] | .bitwiseOr, [_, _] | .bitwiseXor, [_, _] | .external _, [_, _] =>
    simp [callValue]

theorem evaluate_ifThenElse_eq_some {dtype : DataType} {cond onTrue onFalse : Expr} :
    evaluate check env (call dtype .ifThenElse [cond, onTrue, onFalse]) = some result ↔
      dtype.isScalar = true ∧ ∃ value truth, evaluate check env cond = some value ∧
        value.asBool? = some truth ∧
        (if truth then evaluate check env onTrue else evaluate check env onFalse) =
          some result := by
  simp

theorem evaluate_bitwiseNot_eq_some {dtype : DataType} {value : Expr} :
    evaluate check env (call dtype .bitwiseNot [value]) = some result ↔
      dtype.isScalar = true ∧ ∃ operand number, evaluate check env value = some operand ∧
        operand.asInt? = some number ∧ (check dtype (-number - 1)).map .int = some result := by
  simp

theorem evaluate_bitwise_eq_some {dtype : DataType} {op : CallOp} {lhs rhs : Expr} :
    evaluate check env (call dtype op [lhs, rhs]) = some result ↔
      dtype.isScalar = true ∧ ∃ left left' right right' bits, evaluate check env lhs = some left ∧
        left.asInt? = some left' ∧ evaluate check env rhs = some right ∧
        right.asInt? = some right' ∧ Scalar.bitwise? dtype op left' right' = some bits ∧
        (check dtype bits).map .int = some result := by
  cases op <;> simp

/-- A call that has a value is a choice, the complement of an integer, or an operation on two
integers. -/
theorem call_cases {dtype : DataType} {op : CallOp} {args : List Expr}
    (evaluated : evaluate check env (call dtype op args) = some result) :
    (op = .ifThenElse ∧ ∃ cond onTrue onFalse, args = [cond, onTrue, onFalse]) ∨
      (op = .bitwiseNot ∧ ∃ value, args = [value]) ∨ ∃ lhs rhs, args = [lhs, rhs] := by
  rw [evaluate_call] at evaluated
  unfold callValue at evaluated
  split at evaluated
  next shape =>
    have three : args.length = 3 := by simpa using congrArg List.length shape
    exact .inl ⟨rfl, List.length_eq_three.mp three⟩
  next shape =>
    have one : args.length = 1 := by simpa using congrArg List.length shape
    exact .inr (.inl ⟨rfl, List.length_eq_one_iff.mp one⟩)
  next shape =>
    have two : args.length = 2 := by simpa using congrArg List.length shape
    exact .inr (.inr (List.length_eq_two.mp two))
  next => contradiction

/-- The value of a call does not depend on more than the values of its arguments. -/
theorem evaluate_call_congr {check : RangeCheck} {env env' : Environment} {args args' : List Expr}
    (dtype : DataType) (op : CallOp)
    (equal : args'.map (evaluate check env') = args.map (evaluate check env)) :
    evaluate check env' (call dtype op args') = evaluate check env (call dtype op args) := by
  rw [evaluate_call, evaluate_call, equal]

/-- The lanes of several vectors do not depend on more than the values of the vectors and the
counts of their lanes. -/
theorem evaluateLanes_congr {check : RangeCheck} {env env' : Environment} {exprs exprs' : List Expr}
    (equal : exprs'.map (evaluate check env') = exprs.map (evaluate check env))
    (types : exprs'.map dtype = exprs.map dtype) :
    evaluateLanes check env' exprs' = evaluateLanes check env exprs := by
  induction exprs generalizing exprs' with
  | nil =>
    rw [List.map_nil, List.map_eq_nil_iff] at types
    rw [types, evaluateLanes, evaluateLanes]
  | cons expr rest inductionHypothesis =>
    obtain ⟨expr', rest', rfl, sameType, sameTypes⟩ := List.map_eq_cons_iff.mp types
    rw [List.map_cons, List.map_cons, List.cons.injEq] at equal
    rw [evaluateLanes, evaluateLanes, equal.1, inductionHypothesis equal.2 sameTypes, lanes, lanes,
      sameType]

/-- Every lane of several vectors is a lane of one of them. -/
theorem exists_of_mem_evaluateLanes {vectors : List Expr} {lanes : List Value} {lane : Value}
    (evaluated : evaluateLanes check env vectors = some lanes) (member : lane ∈ lanes) :
    ∃ vector ∈ vectors, ∃ value, evaluate check env vector = some value ∧
      lane ∈ value.toLanes vector.lanes := by
  induction vectors generalizing lanes with
  | nil =>
    rw [evaluateLanes] at evaluated
    cases evaluated
    exact absurd member List.not_mem_nil
  | cons vector rest inductionHypothesis =>
    simp only [evaluateLanes, Option.bind_eq_bind, Option.bind_eq_some_iff, Option.pure_def,
      Option.some.injEq] at evaluated
    obtain ⟨value, isValue, others, areOthers, rfl⟩ := evaluated
    rcases List.mem_append.mp member with first | inRest
    · exact ⟨vector, List.mem_cons_self, value, isValue, first⟩
    · obtain ⟨other, isVector, found⟩ := inductionHypothesis areOthers inRest
      exact ⟨other, List.mem_cons_of_mem _ isVector, found⟩

end Expr

end IndexAlgebra
