/-
This file reads integers off values. An expression reads an integer in an environment if some lane
of its value is that integer, where a truth value is zero or one. For every kind of node there is a
law that says what its operands read when the node reads an integer. An analysis that gives every
node a set of integers is sound if it respects these laws.
-/
import IndexAlgebra.Proofs.Renaming

namespace IndexAlgebra

namespace Expr

/-- Some lane of the value of the expression is the integer. -/
def Reads (env : Environment) (expr : Expr) (number : Int) : Prop :=
  ∃ value, expr.eval env = some value ∧ number ∈ value.ints

/-- Some lane of the value of the expression is the integer, whatever range is checked. -/
def ReadsUnder (check : RangeCheck) (env : Environment) (expr : Expr) (number : Int) : Prop :=
  ∃ value, evaluate check env expr = some value ∧ number ∈ value.ints

/-! ### Values without floating-point lanes -/

end Expr

/-- No lane of the value is a floating-point number. -/
inductive Value.Discrete : Value → Prop
  | int (number : Int) : Discrete (.int number)
  | bool (truth : Bool) : Discrete (.bool truth)
  | vector {lanes : List Value} : (∀ lane ∈ lanes, Discrete lane) → Discrete (.vector lanes)

namespace Value.Discrete

theorem ofLanes {lanes : List Value} (discrete : ∀ lane ∈ lanes, Discrete lane) :
    Discrete (.ofLanes lanes) := by
  unfold Value.ofLanes
  split
  next single => exact discrete single List.mem_cons_self
  next => exact .vector discrete

theorem toLanes {value lane : Value} {count : Nat} (discrete : Discrete value)
    (isLane : lane ∈ value.toLanes count) : Discrete lane := by
  cases discrete with
  | int number =>
    rw [List.eq_of_mem_replicate isLane]
    exact .int number
  | bool truth =>
    rw [List.eq_of_mem_replicate isLane]
    exact .bool truth
  | vector lanes => exact lanes lane isLane

end Value.Discrete

namespace Expr

/-! ### The laws of reading under any check -/

section

variable {check : RangeCheck} {env : Environment} {number : Int}

theorem readsUnder_cast {dtype : DataType} {value : Expr} (notFloat : dtype.isFloat = false)
    (discrete : ∀ operand, evaluate check env value = some operand → operand.Discrete)
    (reads : ReadsUnder check env (cast dtype value) number) :
    ∃ operand, ReadsUnder check env value operand ∧
      if dtype.isBool = true then number = if operand ≠ 0 then 1 else 0
      else check dtype.element (if 64 ≤ dtype.bits then operand else Scalar.wrap dtype operand) =
        some number := by
  obtain ⟨result, evaluated, member⟩ := reads
  obtain ⟨operand, lanes, isOperand, equal, rfl⟩ := evaluate_cast_eq_some.mp evaluated
  obtain ⟨lane, isLane, inLane⟩ := Value.mem_ints_ofLanes.mp member
  obtain ⟨input, isInput, isResult⟩ := exists_of_mem_mapM equal isLane
  have inputDiscrete := (discrete operand isOperand).toLanes isInput
  have reads : ∀ number ∈ input.ints, ReadsUnder check env value number := fun number inside =>
    ⟨operand, isOperand, Value.mem_ints_of_toLanes isInput inside⟩
  unfold Scalar.cast? at isResult
  rw [dtype.isBool_element, dtype.isFloat_element, notFloat] at isResult
  by_cases isBool : dtype.isBool = true
  · simp only [if_pos isBool] at isResult ⊢
    cases inputDiscrete with
    | int input =>
      simp only [Option.some.injEq] at isResult
      refine ⟨input, reads input (by simp), ?_⟩
      subst isResult
      by_cases zero : input = 0 <;> simp_all
    | bool truth =>
      simp only [Option.some.injEq] at isResult
      refine ⟨truth.toNat, reads _ (by simp), ?_⟩
      subst isResult
      cases truth <;> simp_all
    | vector lanes => contradiction
  · simp only [if_neg isBool, Bool.false_eq_true, if_false] at isResult ⊢
    obtain ⟨integer, isInteger, isResult⟩ := Option.bind_eq_some_iff.mp isResult
    obtain ⟨checked, isChecked, rfl⟩ := Option.map_eq_some_iff.mp isResult
    have inInput : integer ∈ input.ints := by
      cases inputDiscrete <;> simp_all [Scalar.toInteger?]
    rw [Value.ints_int, List.mem_singleton] at inLane
    exact ⟨integer, reads integer inInput, inLane ▸ isChecked⟩

/-- An arithmetic operator on integers gives an integer, and every other one a truth value. -/
theorem binaryInt?_kind {dtype : DataType} {op : BinaryOp} {left right : Int} {value : Value}
    (result : Scalar.binaryInt? check dtype op left right = some value) :
    (op.opClass = .arithmetic ∧ ∃ number, value = .int number) ∨
      (op.opClass ≠ .arithmetic ∧ ∃ truth, value = .bool truth) := by
  unfold Scalar.binaryInt? at result
  cases op <;>
    simp_all [BinaryOp.opClass, Option.map_eq_some_iff, Option.ite_none_left_eq_some, eq_comm] <;>
    grind

theorem eq_zero_or_one_of_mem_ints {truth : Bool} (member : number ∈ (Value.bool truth).ints) :
    number = 0 ∨ number = 1 := by
  cases truth <;> simp_all

theorem readsUnder_binary {dtype : DataType} {op : BinaryOp} {lhs rhs : Expr}
    (reads : ReadsUnder check env (binary dtype op lhs rhs) number) :
    (op.opClass ≠ .arithmetic ∧ (number = 0 ∨ number = 1)) ∨
      ∃ left right, ReadsUnder check env lhs left ∧ ReadsUnder check env rhs right ∧
        Scalar.binaryInt? check lhs.dtype.element op left right = some (.int number) := by
  obtain ⟨result, evaluated, member⟩ := reads
  obtain ⟨left, right, lanes, isLeft, isRight, equal, rfl⟩ := evaluate_binary_eq_some.mp evaluated
  obtain ⟨lane, isLane, inLane⟩ := Value.mem_ints_ofLanes.mp member
  obtain ⟨⟨first, second⟩, isInput, isResult⟩ := exists_of_mem_mapM equal isLane
  have inputs := List.of_mem_zip isInput
  have readsLeft : ∀ number ∈ first.ints, ReadsUnder check env lhs number := fun number inside =>
    ⟨left, isLeft, Value.mem_ints_of_toLanes inputs.1 inside⟩
  have readsRight : ∀ number ∈ second.ints, ReadsUnder check env rhs number := fun number inside =>
    ⟨right, isRight, Value.mem_ints_of_toLanes inputs.2 inside⟩
  have ofInts : ∀ left right : Int, ReadsUnder check env lhs left → ReadsUnder check env rhs right →
      Scalar.binaryInt? check lhs.dtype.element op left right = some lane →
      (op.opClass ≠ .arithmetic ∧ (number = 0 ∨ number = 1)) ∨
        ∃ left right, ReadsUnder check env lhs left ∧ ReadsUnder check env rhs right ∧
          Scalar.binaryInt? check lhs.dtype.element op left right = some (.int number) := by
    intro left right isLeft isRight result
    rcases binaryInt?_kind result with ⟨-, integer, rfl⟩ | ⟨notArithmetic, truth, rfl⟩
    · rw [Value.ints_int, List.mem_singleton] at inLane
      exact .inr ⟨left, right, isLeft, isRight, inLane ▸ result⟩
    · exact .inl ⟨notArithmetic, eq_zero_or_one_of_mem_ints inLane⟩
  cases first <;> cases second <;> try contradiction
  case int.int left right =>
    exact ofInts left right (readsLeft left (by simp)) (readsRight right (by simp)) isResult
  case bool.bool left right =>
    unfold Scalar.binary? at isResult
    cases op
    case and | or | eq | ne =>
      exact .inl ⟨by decide, eq_zero_or_one_of_mem_ints (Option.some.inj isResult ▸ inLane)⟩
    all_goals
      exact ofInts _ _ (readsLeft _ (by simp)) (readsRight _ (by simp)) isResult
  case float.float left right =>
    simp only [Scalar.binary?] at isResult
    cases op <;> simp only [Scalar.binaryFloat?, Option.some.injEq, reduceCtorEq] at isResult
    case eq | ne | lt | le | gt | ge =>
      exact .inl ⟨by decide, eq_zero_or_one_of_mem_ints (isResult ▸ inLane)⟩
    all_goals simp [← isResult] at inLane

theorem readsUnder_select {dtype : DataType} {cond onTrue onFalse : Expr}
    (reads : ReadsUnder check env (select dtype cond onTrue onFalse) number) :
    ReadsUnder check env onTrue number ∨ ReadsUnder check env onFalse number := by
  obtain ⟨result, evaluated, member⟩ := reads
  obtain ⟨_, taken, refused, lanes, -, isTaken, isRefused, equal, rfl⟩ :=
    evaluate_select_eq_some.mp evaluated
  obtain ⟨lane, isLane, inLane⟩ := Value.mem_ints_ofLanes.mp member
  obtain ⟨⟨first, second, third⟩, isInput, isResult⟩ := exists_of_mem_mapM equal isLane
  have inputs := List.of_mem_zip (List.of_mem_zip isInput).2
  obtain ⟨holds, -, rfl⟩ := Option.map_eq_some_iff.mp isResult
  cases holds
  · exact .inr ⟨refused, isRefused, Value.mem_ints_of_toLanes inputs.2 inLane⟩
  · exact .inl ⟨taken, isTaken, Value.mem_ints_of_toLanes inputs.1 inLane⟩

theorem readsUnder_ramp {dtype : DataType} {base stride : Expr} {count : Nat}
    (reads : ReadsUnder check env (ramp dtype base stride count) number) :
    ∃ first step, ReadsUnder check env base first ∧ ReadsUnder check env stride step ∧
      ∃ index < count, check dtype (first + (index : Int) * step) = some number := by
  obtain ⟨result, evaluated, member⟩ := reads
  obtain ⟨first, first', step, step', lanes, isFirst, firstInt, isStep, stepInt, equal, rfl⟩ :=
    evaluate_ramp_eq_some.mp evaluated
  obtain ⟨lane, isLane, inLane⟩ := Value.mem_ints_vector.mp member
  obtain ⟨index, inRange, isResult⟩ := exists_of_mem_mapM equal isLane
  obtain ⟨checked, isChecked, rfl⟩ := Option.map_eq_some_iff.mp isResult
  rw [Value.ints_int, List.mem_singleton] at inLane
  exact ⟨first', step', ⟨first, isFirst, Value.mem_ints_of_asInt? firstInt⟩,
    ⟨step, isStep, Value.mem_ints_of_asInt? stepInt⟩, index, List.mem_range.mp inRange,
    inLane ▸ isChecked⟩

theorem readsUnder_broadcast {dtype : DataType} {value : Expr} {count : Nat}
    (reads : ReadsUnder check env (broadcast dtype value count) number) :
    ReadsUnder check env value number := by
  obtain ⟨result, evaluated, member⟩ := reads
  obtain ⟨operand, isOperand, rfl⟩ := evaluate_broadcast_eq_some.mp evaluated
  obtain ⟨lane, isLane, inLane⟩ := Value.mem_ints_vector.mp member
  rw [List.eq_of_mem_replicate isLane] at inLane
  exact ⟨operand, isOperand, inLane⟩

end

/-! ### The laws of reading -/

variable {env : Environment} {number : Int}

theorem reads_cast {dtype : DataType} {value : Expr} (notFloat : dtype.isFloat = false)
    (discrete : ∀ operand, value.eval env = some operand → operand.Discrete)
    (reads : Reads env (cast dtype value) number) :
    ∃ operand, Reads env value operand ∧
      if dtype.isBool = true then number = if operand ≠ 0 then 1 else 0
      else dtype.fits number = true ∧
        number = if 64 ≤ dtype.bits then operand else Scalar.wrap dtype operand := by
  obtain ⟨operand, isOperand, converted⟩ := readsUnder_cast notFloat discrete reads
  refine ⟨operand, isOperand, ?_⟩
  split at converted
  next isBool => rwa [if_pos isBool]
  next notBool =>
    rw [if_neg notBool]
    obtain ⟨-, fits, equal⟩ := RangeCheck.checked_eq_some.mp converted
    rw [dtype.fits_element, equal] at fits
    exact ⟨fits, equal.symm⟩

theorem reads_binary {dtype : DataType} {op : BinaryOp} {lhs rhs : Expr}
    (reads : Reads env (binary dtype op lhs rhs) number) :
    (op.opClass ≠ .arithmetic ∧ (number = 0 ∨ number = 1)) ∨
      ∃ left right, Reads env lhs left ∧ Reads env rhs right ∧
        Scalar.binaryInt? .checked lhs.dtype.element op left right = some (.int number) :=
  readsUnder_binary reads

theorem reads_not {dtype : DataType} {value : Expr} (reads : Reads env (not dtype value) number) :
    number = 0 ∨ number = 1 := by
  obtain ⟨result, evaluated, member⟩ := reads
  obtain ⟨operand, lanes, -, equal, rfl⟩ := evaluate_not_eq_some.mp evaluated
  obtain ⟨lane, isLane, inLane⟩ := Value.mem_ints_ofLanes.mp member
  obtain ⟨input, -, isResult⟩ := exists_of_mem_mapM equal isLane
  obtain ⟨truth, -, rfl⟩ := Option.map_eq_some_iff.mp isResult
  cases truth <;> simp_all

theorem reads_select {dtype : DataType} {cond onTrue onFalse : Expr}
    (reads : Reads env (select dtype cond onTrue onFalse) number) :
    Reads env onTrue number ∨ Reads env onFalse number := readsUnder_select reads

theorem reads_ramp {dtype : DataType} {base stride : Expr} {count : Nat}
    (reads : Reads env (ramp dtype base stride count) number) :
    ∃ first step, Reads env base first ∧ Reads env stride step ∧
      ∃ index < count, number = first + (index : Int) * step := by
  obtain ⟨first, step, isFirst, isStep, index, inRange, checked⟩ := readsUnder_ramp reads
  exact ⟨first, step, isFirst, isStep, index, inRange,
    (RangeCheck.checked_eq_some.mp checked).2.2.symm⟩

theorem reads_broadcast {dtype : DataType} {value : Expr} {count : Nat}
    (reads : Reads env (broadcast dtype value count) number) : Reads env value number :=
  readsUnder_broadcast reads

theorem reads_shuffle {dtype : DataType} {vectors : List Expr} {indices : List Nat}
    (reads : Reads env (shuffle dtype vectors indices) number) :
    ∃ vector ∈ vectors, Reads env vector number := by
  obtain ⟨result, evaluated, member⟩ := reads
  obtain ⟨lanes, chosen, areLanes, equal, rfl⟩ := evaluate_shuffle_eq_some.mp evaluated
  obtain ⟨lane, isLane, inLane⟩ := Value.mem_ints_ofLanes.mp member
  obtain ⟨index, -, isChosen⟩ := exists_of_mem_mapM equal isLane
  obtain ⟨vector, isVector, value, isValue, inValue⟩ :=
    exists_of_mem_evaluateLanes areLanes (List.mem_of_getElem? isChosen)
  exact ⟨vector, isVector, value, isValue, Value.mem_ints_of_toLanes inValue inLane⟩

theorem reads_letIn {dtype : DataType} {name : Variable} {value body : Expr}
    (reads : Reads env (letIn dtype name value body) number) :
    ∃ bound, value.eval env = some bound ∧ Reads (env.set name bound) body number := by
  obtain ⟨result, evaluated, member⟩ := reads
  obtain ⟨bound, isBound, isResult⟩ := evaluate_letIn_eq_some.mp evaluated
  exact ⟨bound, isBound, result, isResult, member⟩

theorem reads_ifThenElse {dtype : DataType} {cond onTrue onFalse : Expr}
    (reads : Reads env (call dtype .ifThenElse [cond, onTrue, onFalse]) number) :
    (cond.eval env = some (.bool true) ∧ Reads env onTrue number) ∨
      (cond.eval env = some (.bool false) ∧ Reads env onFalse number) := by
  obtain ⟨result, evaluated, member⟩ := reads
  obtain ⟨-, value, truth, isValue, isTruth, isResult⟩ := evaluate_ifThenElse_eq_some.mp evaluated
  cases value <;> simp only [Value.asBool?, reduceCtorEq, Option.some.injEq] at isTruth
  subst isTruth
  rename_i truth
  cases truth
  · exact .inr ⟨isValue, result, isResult, member⟩
  · exact .inl ⟨isValue, result, isResult, member⟩

theorem reads_bitwise {dtype : DataType} {op : CallOp} {lhs rhs : Expr}
    (reads : Reads env (call dtype op [lhs, rhs]) number) :
    dtype.fits number = true ∧ ∃ left right, Reads env lhs left ∧ Reads env rhs right ∧
      Scalar.bitwise? dtype op left right = some number := by
  obtain ⟨result, evaluated, member⟩ := reads
  obtain ⟨-, left, left', right, right', bits, isLeft, leftInt, isRight, rightInt, isBits,
    isResult⟩ := evaluate_bitwise_eq_some.mp evaluated
  obtain ⟨checked, isChecked, rfl⟩ := Option.map_eq_some_iff.mp isResult
  obtain ⟨-, fits, rfl⟩ := RangeCheck.checked_eq_some.mp isChecked
  rw [Value.ints_int, List.mem_singleton] at member
  subst member
  exact ⟨fits, left', right', ⟨left, isLeft, Value.mem_ints_of_asInt? leftInt⟩,
    ⟨right, isRight, Value.mem_ints_of_asInt? rightInt⟩, isBits⟩

theorem reads_bitwiseNot {dtype : DataType} {value : Expr}
    (reads : Reads env (call dtype .bitwiseNot [value]) number) :
    dtype.fits number = true ∧ ∃ operand, Reads env value operand ∧ number = -operand - 1 := by
  obtain ⟨result, evaluated, member⟩ := reads
  obtain ⟨-, operand, integer, isOperand, isInt, isResult⟩ :=
    evaluate_bitwiseNot_eq_some.mp evaluated
  obtain ⟨checked, isChecked, rfl⟩ := Option.map_eq_some_iff.mp isResult
  obtain ⟨-, fits, rfl⟩ := RangeCheck.checked_eq_some.mp isChecked
  rw [Value.ints_int, List.mem_singleton] at member
  subst member
  exact ⟨fits, integer, ⟨operand, isOperand, Value.mem_ints_of_asInt? isInt⟩, rfl⟩

/-! ### Computed values -/

/-- All operands of the node are evaluated, in the environment of the node. -/
def isStrict : Expr → Bool
  | letIn .. | call _ .ifThenElse _ => false
  | _ => true

/-- The value is computed on the way to that of the expression: it is the value of the expression
itself or of a part that is evaluated. A choice evaluates only the branch it takes. -/
inductive Computes : Environment → Expr → Value → Prop
  | result {env : Environment} {expr : Expr} {value : Value} :
    expr.eval env = some value → Computes env expr value
  | child {env : Environment} {expr child : Expr} {value : Value} :
    expr.isStrict = true → child ∈ expr.children → Computes env child value →
      Computes env expr value
  | letValue {env : Environment} {dtype : DataType} {name : Variable} {bound body : Expr}
      {value : Value} :
    Computes env bound value → Computes env (letIn dtype name bound body) value
  | letBody {env : Environment} {dtype : DataType} {name : Variable} {bound body : Expr}
      {first value : Value} :
    bound.eval env = some first → Computes (env.set name first) body value →
      Computes env (letIn dtype name bound body) value
  | condition {env : Environment} {dtype : DataType} {cond onTrue onFalse : Expr}
      {value : Value} :
    Computes env cond value → Computes env (call dtype .ifThenElse [cond, onTrue, onFalse]) value
  | taken {env : Environment} {dtype : DataType} {cond onTrue onFalse : Expr} {value : Value} :
    cond.eval env = some (.bool true) → Computes env onTrue value →
      Computes env (call dtype .ifThenElse [cond, onTrue, onFalse]) value
  | refused {env : Environment} {dtype : DataType} {cond onTrue onFalse : Expr} {value : Value} :
    cond.eval env = some (.bool false) → Computes env onFalse value →
      Computes env (call dtype .ifThenElse [cond, onTrue, onFalse]) value

/-- A node whose operands are all evaluated computes its own value and what its operands compute. -/
theorem computes_iff {env : Environment} {expr : Expr} {value : Value}
    (strict : expr.isStrict = true) :
    Computes env expr value ↔
      expr.eval env = some value ∨ ∃ child ∈ expr.children, Computes env child value := by
  constructor
  · intro computes
    cases computes with
    | result evaluated => exact .inl evaluated
    | child _ isChild computes => exact .inr ⟨_, isChild, computes⟩
    | letValue | letBody | condition | taken | refused => contradiction
  · rintro (evaluated | ⟨child, isChild, computes⟩)
    · exact .result evaluated
    · exact .child strict isChild computes

theorem RenamedList.exists_of_mem {image : Variable → Variable} {exprs renamed : List Expr}
    (related : RenamedList image exprs renamed) {child' : Expr} (member : child' ∈ renamed) :
    ∃ child ∈ exprs, Renamed image child child' ∧
      child.freeOccurrences ⊆ freeOccurrencesList exprs := by
  induction exprs generalizing renamed with
  | nil =>
    cases related
    exact absurd member List.not_mem_nil
  | cons expr rest inductionHypothesis =>
    cases related with
    | cons first others =>
      rw [freeOccurrencesList]
      rcases List.mem_cons.mp member with rfl | inRest
      · exact ⟨expr, List.mem_cons_self, first, List.subset_append_left _ _⟩
      · obtain ⟨child, isChild, same, free⟩ := inductionHypothesis others inRest
        exact ⟨child, List.mem_cons_of_mem _ isChild, same,
          List.subset_append_of_subset_right _ free⟩

/-- The operands of a renamed node are the renamed operands of the node. -/
theorem Renamed.exists_child {image : Variable → Variable} {expr renamed child' : Expr}
    (related : Renamed image expr renamed) (strict : renamed.isStrict = true)
    (isChild : child' ∈ renamed.children) :
    expr.isStrict = true ∧ ∃ child ∈ expr.children, Renamed image child child' ∧
      child.freeOccurrences ⊆ expr.freeOccurrences := by
  cases related with
  | var | intConst | floatConst | boolConst => exact absurd isChild List.not_mem_nil
  | cast _ value | not _ value | broadcast _ _ value =>
    rw [children, List.mem_singleton] at isChild
    exact ⟨rfl, _, List.mem_singleton_self _, isChild ▸ value, List.Subset.refl _⟩
  | binary _ _ left right =>
    refine ⟨rfl, ?_⟩
    simp only [children, List.mem_cons, List.not_mem_nil, or_false] at isChild
    rcases isChild with rfl | rfl
    · exact ⟨_, by simp [children], left, by simp [freeOccurrences]⟩
    · exact ⟨_, by simp [children], right, by simp [freeOccurrences]⟩
  | select _ cond onTrue onFalse =>
    refine ⟨rfl, ?_⟩
    simp only [children, List.mem_cons, List.not_mem_nil, or_false] at isChild
    rcases isChild with rfl | rfl | rfl
    · exact ⟨_, by simp [children], cond, by simp [freeOccurrences]⟩
    · exact ⟨_, by simp [children], onTrue, fun _ member => by simp [freeOccurrences, member]⟩
    · exact ⟨_, by simp [children], onFalse, by simp [freeOccurrences]⟩
  | ramp _ _ base stride =>
    refine ⟨rfl, ?_⟩
    simp only [children, List.mem_cons, List.not_mem_nil, or_false] at isChild
    rcases isChild with rfl | rfl
    · exact ⟨_, by simp [children], base, by simp [freeOccurrences]⟩
    · exact ⟨_, by simp [children], stride, by simp [freeOccurrences]⟩
  | shuffle _ _ vectors => exact ⟨rfl, vectors.exists_of_mem isChild⟩
  | letIn => contradiction
  | call dtype op args =>
    cases op with
    | ifThenElse => contradiction
    | _ => exact ⟨rfl, args.exists_of_mem isChild⟩

/-- A renamed choice is a choice between renamed branches. -/
theorem Renamed.exists_ifThenElse {image : Variable → Variable} {dtype : DataType}
    {expr cond' onTrue' onFalse' : Expr}
    (related : Renamed image expr (.call dtype .ifThenElse [cond', onTrue', onFalse'])) :
    ∃ cond onTrue onFalse, expr = .call dtype .ifThenElse [cond, onTrue, onFalse] ∧
      Renamed image cond cond' ∧ Renamed image onTrue onTrue' ∧ Renamed image onFalse onFalse' := by
  cases related with
  | call _ _ args =>
    cases args with | cons cond rest => cases rest with | cons onTrue rest =>
    cases rest with | cons onFalse rest => cases rest with | nil =>
    exact ⟨_, _, _, rfl, cond, onTrue, onFalse⟩

/-- A variable that occurs free in a renamed expression is the image of one that occurs free in the
original. -/
theorem Renamed.exists_free {image : Variable → Variable} {expr renamed : Expr} {name : Variable}
    (related : Renamed image expr renamed) (occurs : name ∈ renamed.freeOccurrences) :
    ∃ other ∈ expr.freeOccurrences, image other = name := by
  induction renamed using childrenInduction generalizing image expr with
  | step renamed inductionHypothesis =>
    have ofStrict (strict : renamed.isStrict = true) {child : Expr}
        (isChild : child ∈ renamed.children) (inside : name ∈ child.freeOccurrences) :
        ∃ other ∈ expr.freeOccurrences, image other = name := by
      obtain ⟨-, original, -, same, free⟩ := related.exists_child strict isChild
      obtain ⟨other, isFree, isImage⟩ := inductionHypothesis child isChild same inside
      exact ⟨other, free isFree, isImage⟩
    rcases exists_child_of_mem_freeOccurrences occurs with ⟨dtype, rfl⟩ | ⟨child, isChild, inside⟩
    · cases related with
      | var _ other => exact ⟨other, List.mem_singleton_self other, rfl⟩
    · cases related with
      | letIn _ _ _ apart value body =>
        simp only [freeOccurrences, List.mem_append, List.mem_filter, decide_eq_true_eq] at occurs ⊢
        rcases occurs with inValue | ⟨inBody, different⟩
        · obtain ⟨other, isFree, isImage⟩ := inductionHypothesis _ (by simp [children]) value inValue
          exact ⟨other, .inl isFree, isImage⟩
        · obtain ⟨other, isFree, isImage⟩ := inductionHypothesis _ (by simp [children]) body inBody
          rw [Function.update_apply] at isImage
          split at isImage
          next => exact absurd isImage.symm different
          next isOther => exact ⟨other, .inr ⟨isFree, isOther⟩, isImage⟩
      | call _ op args =>
        obtain ⟨original, -, same, free⟩ := args.exists_of_mem isChild
        obtain ⟨other, isFree, isImage⟩ := inductionHypothesis child isChild same inside
        exact ⟨other, free isFree, isImage⟩
      | _ => exact ofStrict rfl isChild inside

/-- The last expression is evaluated, in the environment before it, on the way to the value of the
first one. -/
inductive Visits (check : RangeCheck) : Environment → Expr → Environment → Expr → Prop
  | self {env : Environment} {expr : Expr} : Visits check env expr env expr
  | child {env inner : Environment} {expr child part : Expr} :
    expr.isStrict = true → child ∈ expr.children → Visits check env child inner part →
      Visits check env expr inner part
  | letValue {env inner : Environment} {dtype : DataType} {name : Variable} {bound body part : Expr} :
    Visits check env bound inner part → Visits check env (letIn dtype name bound body) inner part
  | letBody {env inner : Environment} {dtype : DataType} {name : Variable} {bound body part : Expr}
      {first : Value} :
    evaluate check env bound = some first → Visits check (env.set name first) body inner part →
      Visits check env (letIn dtype name bound body) inner part
  | condition {env inner : Environment} {dtype : DataType} {cond onTrue onFalse part : Expr} :
    Visits check env cond inner part →
      Visits check env (call dtype .ifThenElse [cond, onTrue, onFalse]) inner part
  | taken {env inner : Environment} {dtype : DataType} {cond onTrue onFalse part : Expr} :
    evaluate check env cond = some (.bool true) → Visits check env onTrue inner part →
      Visits check env (call dtype .ifThenElse [cond, onTrue, onFalse]) inner part
  | refused {env inner : Environment} {dtype : DataType} {cond onTrue onFalse part : Expr} :
    evaluate check env cond = some (.bool false) → Visits check env onFalse inner part →
      Visits check env (call dtype .ifThenElse [cond, onTrue, onFalse]) inner part

/-- The values computed on the way are those of the expressions evaluated on the way. -/
theorem computes_iff_visits {env : Environment} {expr : Expr} {value : Value} :
    Computes env expr value ↔
      ∃ inner part, Visits .checked env expr inner part ∧ part.eval inner = some value := by
  constructor
  · intro computes
    induction computes with
    | result evaluated => exact ⟨_, _, .self, evaluated⟩
    | child strict isChild _ inductionHypothesis =>
      obtain ⟨inner, part, visits, evaluated⟩ := inductionHypothesis
      exact ⟨inner, part, .child strict isChild visits, evaluated⟩
    | letValue _ inductionHypothesis =>
      obtain ⟨inner, part, visits, evaluated⟩ := inductionHypothesis
      exact ⟨inner, part, .letValue visits, evaluated⟩
    | letBody isBound _ inductionHypothesis =>
      obtain ⟨inner, part, visits, evaluated⟩ := inductionHypothesis
      exact ⟨inner, part, .letBody isBound visits, evaluated⟩
    | condition _ inductionHypothesis =>
      obtain ⟨inner, part, visits, evaluated⟩ := inductionHypothesis
      exact ⟨inner, part, .condition visits, evaluated⟩
    | taken holds _ inductionHypothesis =>
      obtain ⟨inner, part, visits, evaluated⟩ := inductionHypothesis
      exact ⟨inner, part, .taken holds visits, evaluated⟩
    | refused fails _ inductionHypothesis =>
      obtain ⟨inner, part, visits, evaluated⟩ := inductionHypothesis
      exact ⟨inner, part, .refused fails visits, evaluated⟩
  · rintro ⟨inner, part, visits, evaluated⟩
    induction visits with
    | self => exact .result evaluated
    | child strict isChild _ inductionHypothesis =>
      exact .child strict isChild (inductionHypothesis evaluated)
    | letValue _ inductionHypothesis => exact .letValue (inductionHypothesis evaluated)
    | letBody isBound _ inductionHypothesis =>
      exact .letBody isBound (inductionHypothesis evaluated)
    | condition _ inductionHypothesis => exact .condition (inductionHypothesis evaluated)
    | taken holds _ inductionHypothesis => exact .taken holds (inductionHypothesis evaluated)
    | refused fails _ inductionHypothesis => exact .refused fails (inductionHypothesis evaluated)

/-- What a renamed expression visits is what the original visits, renamed. -/
theorem Renamed.visits {check : RangeCheck} {image : Variable → Variable}
    {env env' inner' : Environment} {expr renamed part' : Expr} (related : Renamed image expr renamed)
    (agree : ∀ name ∈ expr.freeOccurrences, env' (image name) = env name)
    (visits : Visits check env' renamed inner' part') :
    ∃ image' inner part, Visits check env expr inner part ∧ Renamed image' part part' ∧
      ∀ name ∈ part.freeOccurrences, inner' (image' name) = inner name := by
  induction visits generalizing image env expr with
  | self => exact ⟨image, env, expr, .self, related, agree⟩
  | child strict isChild _ inductionHypothesis =>
    obtain ⟨isStrict, child, original, same, free⟩ := related.exists_child strict isChild
    obtain ⟨image', inner, part, visits, found⟩ :=
      inductionHypothesis same fun name member => agree name (free member)
    exact ⟨image', inner, part, .child isStrict original visits, found⟩
  | letValue _ inductionHypothesis =>
    cases related with
    | letIn _ _ _ _ value _ =>
      simp only [freeOccurrences, List.mem_append] at agree
      obtain ⟨image', inner, part, visits, found⟩ :=
        inductionHypothesis value fun name member => agree name (.inl member)
      exact ⟨image', inner, part, .letValue visits, found⟩
  | letBody evaluated _ inductionHypothesis =>
    cases related with
    | letIn _ _ _ apart value body =>
      simp only [freeOccurrences, List.mem_append, List.mem_filter, decide_eq_true_eq] at agree
      rw [value.evaluate_eq fun name member => agree name (.inl member)] at evaluated
      obtain ⟨image', inner, part, visits, found⟩ := inductionHypothesis body
        (agree_set _ (fun other member different => agree other (.inr ⟨member, different⟩)) apart)
      exact ⟨image', inner, part, .letBody evaluated visits, found⟩
  | condition _ inductionHypothesis =>
    obtain ⟨_, _, _, rfl, cond, -, -⟩ := related.exists_ifThenElse
    simp only [freeOccurrences, freeOccurrencesList, List.mem_append] at agree
    obtain ⟨image', inner, part, visits, found⟩ :=
      inductionHypothesis cond fun name member => agree name (.inl member)
    exact ⟨image', inner, part, .condition visits, found⟩
  | taken evaluated _ inductionHypothesis =>
    obtain ⟨_, _, _, rfl, cond, onTrue, -⟩ := related.exists_ifThenElse
    simp only [freeOccurrences, freeOccurrencesList, List.mem_append] at agree
    rw [cond.evaluate_eq fun name member => agree name (.inl member)] at evaluated
    obtain ⟨image', inner, part, visits, found⟩ :=
      inductionHypothesis onTrue fun name member => agree name (.inr (.inl member))
    exact ⟨image', inner, part, .taken evaluated visits, found⟩
  | refused evaluated _ inductionHypothesis =>
    obtain ⟨_, _, _, rfl, cond, -, onFalse⟩ := related.exists_ifThenElse
    simp only [freeOccurrences, freeOccurrencesList, List.mem_append] at agree
    rw [cond.evaluate_eq fun name member => agree name (.inl member)] at evaluated
    obtain ⟨image', inner, part, visits, found⟩ :=
      inductionHypothesis onFalse fun name member => agree name (.inr (.inr (.inl member)))
    exact ⟨image', inner, part, .refused evaluated visits, found⟩

/-- A renamed expression computes no other values than the original. -/
theorem Renamed.computes {image : Variable → Variable} {env env' : Environment}
    {expr renamed : Expr} {value : Value} (related : Renamed image expr renamed)
    (agree : ∀ name ∈ expr.freeOccurrences, env' (image name) = env name)
    (computed : Computes env' renamed value) : Computes env expr value := by
  obtain ⟨inner', part', visits', evaluated⟩ := computes_iff_visits.mp computed
  obtain ⟨image', inner, part, visits, same, agreePart⟩ := related.visits agree visits'
  rw [eval, same.evaluate_eq agreePart] at evaluated
  exact computes_iff_visits.mpr ⟨inner, part, visits, evaluated⟩

end Expr

end IndexAlgebra
