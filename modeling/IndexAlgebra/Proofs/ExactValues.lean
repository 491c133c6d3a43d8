/-
This file proves what values an expression has over the integers of arithmetic. Whatever range of
integers is checked, the value of a well-typed expression has as many lanes as its type, and each lane is
of the kind of the type. A value that fits everywhere is the exact one.
-/
import IndexAlgebra.Proofs.LaneKinds
import IndexAlgebra.Proofs.Reading

namespace IndexAlgebra

/-! ### Kinds of values -/

namespace Value

/-- The value has as many lanes as the type, and each lane is of the kind of the type. -/
def Kinded (dtype : DataType) (value : Value) : Prop :=
  ∃ lanes : List Value, value = ofLanes lanes ∧ lanes.length = dtype.lanes ∧
    ∀ lane ∈ lanes, lane.OfKind dtype

theorem OfKind.of_inLane {dtype : DataType} {lane : Value} (inLane : lane.InLane dtype) :
    lane.OfKind dtype := by
  cases lane with
  | int number => exact DataType.isFloat_of_isInteger inLane.1
  | bool truth => exact inLane
  | float number => exact inLane
  | vector lanes => exact inLane

theorem OfKind.of_element {dtype other : DataType} {lane : Value} (same : dtype.element = other.element)
    (ofKind : lane.OfKind dtype) : lane.OfKind other := by
  have isFloat : dtype.isFloat = other.isFloat := by
    rw [← dtype.isFloat_element, ← other.isFloat_element, same]
  have isBool : dtype.isBool = other.isBool := by
    rw [← dtype.isBool_element, ← other.isBool_element, same]
  cases lane with
  | int number => exact isFloat.symm.trans ofKind
  | bool truth => exact isBool.symm.trans ofKind
  | float number => exact isFloat.symm.trans ofKind
  | vector lanes => exact ofKind

theorem OfKind.toLanes_one {dtype : DataType} {lane : Value} (ofKind : lane.OfKind dtype) :
    lane.toLanes 1 = [lane] := ofKind.isLane.toLanes 1

/-- The lanes of a value of a kind are of the kind, and as many as are asked for. -/
theorem Kinded.toLanes {dtype : DataType} {value : Value} (kinded : value.Kinded dtype)
    (count : Nat) (enough : dtype.lanes = count ∨ dtype.lanes = 1) :
    (value.toLanes count).length = count ∧ ∀ lane ∈ value.toLanes count, lane.OfKind dtype :=
  HasLanes.toLanes (fun _ => OfKind.isLane) kinded count enough

theorem Kinded.ofKind {dtype : DataType} {value : Value} (kinded : value.Kinded dtype)
    (scalar : dtype.lanes = 1) : value.OfKind dtype := HasLanes.single kinded scalar

/-- A type with a scalar value is a scalar type. -/
theorem Kinded.lanes_eq_one {dtype : DataType} {value : Value} (kinded : value.Kinded dtype)
    (scalar : ∀ lanes, value ≠ .vector lanes) : dtype.lanes = 1 := by
  obtain ⟨lanes, rfl, length, -⟩ := kinded
  unfold ofLanes at scalar
  split at scalar
  next => exact length.symm
  next => exact absurd rfl (scalar _)

/-- A value of a scalar integer type is an integer. -/
theorem Kinded.exists_int {dtype : DataType} {value : Value} (kinded : value.Kinded dtype)
    (isInteger : dtype.isInteger = true) (scalar : dtype.lanes = 1) :
    ∃ number, value = .int number := by
  have isKind := kinded.ofKind scalar
  cases value with
  | int number => exact ⟨number, rfl⟩
  | bool truth =>
    rw [OfKind] at isKind
    rw [DataType.isInteger_of_isBool isKind] at isInteger
    contradiction
  | float number =>
    rw [OfKind, DataType.isFloat_of_isInteger isInteger] at isKind
    contradiction
  | vector lanes => exact isKind.elim

/-- A value of a type that is not floating-point has no floating-point lane. -/
theorem Kinded.discrete {dtype : DataType} {value : Value} (kinded : value.Kinded dtype)
    (notFloat : dtype.isFloat = false) : value.Discrete := by
  obtain ⟨lanes, rfl, -, ofKind⟩ := kinded
  refine .ofLanes fun lane member => ?_
  have isKind := ofKind lane member
  cases lane with
  | int number => exact .int number
  | bool truth => exact .bool truth
  | float number =>
    rw [OfKind, notFloat] at isKind
    contradiction
  | vector lanes => exact isKind.elim

end Value

/-- Every variable that has a value has one of the kind of its type. -/
def Environment.Kinded (env : Environment) : Prop :=
  ∀ name value, env name = some value → value.Kinded name.dtype

theorem Environment.Typed.kinded {env : Environment} (typed : env.Typed) : env.Kinded := by
  intro name value isValue
  obtain ⟨lanes, equal, length, inLanes⟩ := (typed name value isValue).1
  exact ⟨lanes, equal, length, fun lane member => .of_inLane (inLanes lane member)⟩

theorem Environment.Kinded.set {env : Environment} (kinded : env.Kinded) {name : Variable}
    {value : Value} (ofType : value.Kinded name.dtype) : (env.set name value).Kinded :=
  HaveLanes.set kinded ofType

/-! ### The kinds of results -/

namespace Scalar

variable {check : RangeCheck} {dtype : DataType} {value : Value}

theorem ofKind_of_arithmetic {op : BinaryOp} (arithmetic : op.opClass = .arithmetic)
    (ofKind : value.OfKind dtype) : value.OfKind (Expr.binaryType op dtype) := by
  rw [Expr.binaryType, if_neg (by rw [BinaryOp.isComparison, arithmetic]; decide)]
  exact ofKind

theorem ofKind_of_comparison {op : BinaryOp} (comparison : op.opClass = .comparison)
    (truth : Bool) : (Value.bool truth).OfKind (Expr.binaryType op dtype) := by
  rw [Expr.binaryType, if_pos (by rw [BinaryOp.isComparison, comparison]; decide)]
  exact rfl

theorem ofKind_binaryInt? {op : BinaryOp} {element : DataType} {left right : Int}
    (notFloat : dtype.isFloat = false)
    (result : binaryInt? check element op left right = some value) :
    value.OfKind (Expr.binaryType op dtype) := by
  rcases Expr.binaryInt?_kind result with ⟨arithmetic, number, rfl⟩ | ⟨notArithmetic, truth, rfl⟩
  · exact ofKind_of_arithmetic arithmetic notFloat
  · cases op <;> first
      | exact absurd rfl notArithmetic
      | exact ofKind_of_comparison rfl truth
      | cases result

/-- An operator on two lanes of a type gives a lane of the type of the node. -/
theorem ofKind_binary? {op : BinaryOp} {element : DataType} {left right : Value}
    (isLeft : left.OfKind dtype) (result : binary? check element op left right = some value) :
    value.OfKind (Expr.binaryType op dtype) := by
  cases left <;> cases right <;> try contradiction
  case int.int => exact ofKind_binaryInt? isLeft result
  case bool.bool =>
    unfold binary? at result
    cases op
    case and | or =>
      cases result
      exact isLeft
    case eq | ne =>
      cases result
      exact ofKind_of_comparison rfl _
    all_goals exact ofKind_binaryInt? (DataType.isFloat_of_isBool isLeft) result
  case float.float left right =>
    simp only [binary?] at result
    cases op <;> simp only [binaryFloat?, Option.some.injEq, reduceCtorEq] at result
    case eq | ne | lt | le | gt | ge => exact result ▸ ofKind_of_comparison rfl _
    all_goals exact result ▸ ofKind_of_arithmetic rfl isLeft

/-- A scalar of the kind of a type that is read as an integer is no floating-point number. -/
theorem notFloat_of_asInt? {number : Int} (ofKind : value.OfKind dtype)
    (isInt : value.asInt? = some number) : dtype.isFloat = false := by
  cases value with
  | int number => exact ofKind
  | bool truth => exact DataType.isFloat_of_isBool ofKind
  | float number => cases isInt
  | vector lanes => cases isInt

end Scalar

namespace Expr

variable {check : RangeCheck}

/-- Evaluation keeps the kinds of the types. -/
theorem laneKinds_ofKind (check : RangeCheck) : LaneKinds check Value.OfKind where
  isLane := Value.OfKind.isLane
  ofKind := id
  ofElement := Value.OfKind.of_element
  ofInt ofKind isInt _ := Scalar.notFloat_of_asInt? ofKind isInt
  binary := Scalar.ofKind_binary?

end Expr

namespace Value

theorem Kinded.notFloat_of_asInt? {dtype : DataType} {value : Value} {number : Int}
    (kinded : value.Kinded dtype) (isInt : value.asInt? = some number) : dtype.isFloat = false :=
  (Expr.laneKinds_ofKind .unbounded).ofInt_of_hasLanes kinded isInt 0

theorem kinded_int {dtype : DataType} (number : Int) (notFloat : dtype.isFloat = false)
    (scalar : dtype.lanes = 1) : (int number).Kinded dtype := HasLanes.of_single notFloat scalar

end Value

namespace Expr

/-- A well-typed node keeps the kinds of the types. -/
theorem WellTyped.keepsLanes {expr : Expr} (typed : expr.WellTyped) : expr.KeepsLanes Value.OfKind := by
  cases expr with
  | shuffle dtype vectors indices =>
    rw [WellTyped] at typed
    exact ⟨typed.2.2.2, fun vector isVector _ => .of_element (typed.2.1 vector isVector)⟩
  | call dtype op args =>
    rw [WellTyped] at typed
    cases op with
    | ifThenElse | external => trivial
    | _ =>
      rintro operand isFirst lane ofKind
      have isType : dtype = (args.head?.map Expr.dtype).getD .int32 := typed.2.2
      rw [isType, isFirst]
      exact ofKind
  | _ => trivial

/-- The types of the expression fit together, and they tell the kinds of the lanes of its value. -/
structure TellsKinds (expr : Expr) : Prop where
  coherent : expr.Coherent
  keeps : ∀ node ∈ expr.postOrder, node.KeepsLanes Value.OfKind

theorem TellsKinds.child {expr child : Expr} (tells : expr.TellsKinds) (isChild : child ∈ expr.children) :
    child.TellsKinds :=
  ⟨tells.coherent.child isChild, fun node inside =>
    tells.keeps node (mem_postOrder.mpr (.inr ⟨child, isChild, inside⟩))⟩

theorem WellTyped.tellsKinds {expr : Expr} (typed : expr.WellTyped) : expr.TellsKinds :=
  ⟨typed.coherent, fun _ inside =>
    (of_mem_postOrder (fun _ typed _ isChild => typed.child isChild) expr typed inside).keepsLanes⟩

/-- The value of an expression whose types tell the kinds of lanes is of the kind of its type. -/
theorem TellsKinds.kinded {expr : Expr} {env : Environment} {value : Value} (tells : expr.TellsKinds)
    (envKinded : env.Kinded) (evaluated : evaluate check env expr = some value) :
    value.Kinded expr.dtype :=
  (laneKinds_ofKind check).hasLanes tells.coherent tells.keeps envKinded evaluated

/-- The value of a well-typed expression is of the kind of its type. -/
theorem evaluate_kinded {expr : Expr} {env : Environment} {value : Value} (typed : expr.WellTyped)
    (envKinded : env.Kinded) (evaluated : evaluate check env expr = some value) :
    value.Kinded expr.dtype := typed.tellsKinds.kinded envKinded evaluated

/-- The value that a binding gives its variable is of the kind of the variable. -/
theorem WellTyped.kinded_bound {env : Environment} {dtype : DataType} {name : Variable}
    {operand body : Expr} {bound : Value} (typed : (letIn dtype name operand body).WellTyped)
    (envKinded : env.Kinded) (evaluated : evaluate check env operand = some bound) :
    bound.Kinded name.dtype := by
  rw [WellTyped] at typed
  exact typed.2.2.1 ▸ evaluate_kinded typed.1 envKinded evaluated

/-! ### Fewer checks -/

theorem mapM_mono {α β : Type} {f g : α → Option β} {inputs : List α} {results : List β}
    (weaker : ∀ input ∈ inputs, ∀ result, f input = some result → g input = some result)
    (equal : inputs.mapM f = some results) : inputs.mapM g = some results := by
  induction inputs generalizing results with
  | nil => rwa [List.mapM_nil] at equal ⊢
  | cons input rest inductionHypothesis =>
    rw [List.mapM_cons] at equal ⊢
    obtain ⟨first, isFirst, equal⟩ := Option.bind_eq_some_iff.mp equal
    obtain ⟨others, areOthers, equal⟩ := Option.bind_eq_some_iff.mp equal
    rw [weaker input List.mem_cons_self first isFirst,
      inductionHypothesis (fun other isOther => weaker other (List.mem_cons_of_mem _ isOther))
        areOthers]
    exact equal

/-- The second check lets every integer pass that the first one does. -/
def Weaker (check check' : RangeCheck) : Prop :=
  ∀ dtype value checked, check dtype value = some checked → check' dtype value = some checked

theorem weaker_unbounded : Weaker .checked .unbounded := by
  intro dtype value checked isChecked
  obtain ⟨-, -, rfl⟩ := RangeCheck.checked_eq_some.mp isChecked
  rfl

end Expr

namespace Scalar

variable {check check' : RangeCheck} (weaker : Expr.Weaker check check') {dtype : DataType}

include weaker

theorem map_check_mono {number : Int} {value : Value}
    (result : (check dtype number).map Value.int = some value) :
    (check' dtype number).map Value.int = some value := by
  obtain ⟨checked, isChecked, equal⟩ := Option.map_eq_some_iff.mp result
  exact Option.map_eq_some_iff.mpr ⟨checked, weaker _ _ _ isChecked, equal⟩

theorem binaryInt?_mono {op : BinaryOp} {left right : Int} {value : Value}
    (result : binaryInt? check dtype op left right = some value) :
    binaryInt? check' dtype op left right = some value := by
  unfold binaryInt? at *
  cases op <;> dsimp only at result ⊢
  case add | sub | mul | min | max => exact map_check_mono weaker result
  case truncDiv | truncMod | floorDiv | floorMod =>
    rw [Option.ite_none_left_eq_some] at result ⊢
    exact ⟨result.1, map_check_mono weaker result.2⟩
  all_goals exact result

theorem binary?_mono {op : BinaryOp} {left right value : Value}
    (result : binary? check dtype op left right = some value) :
    binary? check' dtype op left right = some value := by
  cases left <;> cases right <;> try exact result
  case int.int => exact binaryInt?_mono weaker result
  case bool.bool =>
    unfold binary? at *
    cases op
    case and | or | eq | ne => exact result
    all_goals exact binaryInt?_mono weaker result

theorem cast?_mono {operand value : Value} (result : cast? check dtype operand = some value) :
    cast? check' dtype operand = some value := by
  unfold cast? at *
  split at result
  next isBool =>
    rw [if_pos isBool]
    exact result
  next notBool =>
    rw [if_neg notBool]
    split at result
    next isFloat =>
      rw [if_pos isFloat]
      exact result
    next notFloat =>
      rw [if_neg notFloat]
      obtain ⟨integer, isInteger, isResult⟩ := Option.bind_eq_some_iff.mp result
      exact Option.bind_eq_some_iff.mpr ⟨integer, isInteger, map_check_mono weaker isResult⟩

end Scalar

namespace Expr

theorem evaluateLanes_mono {check check' : RangeCheck} {env : Environment} {vectors : List Expr}
    {lanes : List Value}
    (mono : ∀ vector ∈ vectors, ∀ value, evaluate check env vector = some value →
      evaluate check' env vector = some value)
    (evaluated : evaluateLanes check env vectors = some lanes) :
    evaluateLanes check' env vectors = some lanes := by
  induction vectors generalizing lanes with
  | nil =>
    rw [evaluateLanes] at evaluated ⊢
    exact evaluated
  | cons vector rest inductionHypothesis =>
    simp only [evaluateLanes, Option.bind_eq_bind, Option.bind_eq_some_iff, Option.pure_def,
      Option.some.injEq] at evaluated ⊢
    obtain ⟨value, isValue, others, areOthers, equal⟩ := evaluated
    exact ⟨value, mono vector List.mem_cons_self value isValue, others,
      inductionHypothesis (fun other isOther => mono other (List.mem_cons_of_mem _ isOther))
        areOthers, equal⟩

section

variable {check check' : RangeCheck} (weaker : Weaker check check')

include weaker

theorem evaluate_call_mono {env : Environment} {dtype : DataType} {op : CallOp} {args : List Expr}
    {value : Value}
    (mono : ∀ arg ∈ args, ∀ value, evaluate check env arg = some value →
      evaluate check' env arg = some value)
    (evaluated : evaluate check env (call dtype op args) = some value) :
    evaluate check' env (call dtype op args) = some value := by
  rcases call_cases evaluated with
    ⟨rfl, cond, onTrue, onFalse, rfl⟩ | ⟨rfl, operand, rfl⟩ | ⟨lhs, rhs, rfl⟩
  · obtain ⟨scalar, holds, truth, isHolds, isTruth, isResult⟩ :=
      evaluate_ifThenElse_eq_some.mp evaluated
    refine evaluate_ifThenElse_eq_some.mpr
      ⟨scalar, holds, truth, mono cond (by simp) _ isHolds, isTruth, ?_⟩
    cases truth
    · exact mono onFalse (by simp) _ isResult
    · exact mono onTrue (by simp) _ isResult
  · obtain ⟨scalar, input, number, isInput, isNumber, isResult⟩ :=
      evaluate_bitwiseNot_eq_some.mp evaluated
    exact evaluate_bitwiseNot_eq_some.mpr ⟨scalar, input, number, mono operand (by simp) _ isInput,
      isNumber, Scalar.map_check_mono weaker isResult⟩
  · obtain ⟨scalar, left, left', right, right', bits, isLeft, leftInt, isRight, rightInt, isBits,
      isResult⟩ := evaluate_bitwise_eq_some.mp evaluated
    exact evaluate_bitwise_eq_some.mpr ⟨scalar, left, left', right, right', bits,
      mono lhs (by simp) _ isLeft, leftInt, mono rhs (by simp) _ isRight, rightInt, isBits,
      Scalar.map_check_mono weaker isResult⟩

/-- A value that passes a check passes a weaker one. -/
theorem evaluate_mono {expr : Expr} {env : Environment} {value : Value}
    (evaluated : evaluate check env expr = some value) : evaluate check' env expr = some value := by
  induction expr using childrenInduction generalizing env value with
  | step expr inductionHypothesis =>
    have ofChild : ∀ child ∈ expr.children, ∀ value, evaluate check env child = some value →
        evaluate check' env child = some value := fun child isChild value isValue =>
      inductionHypothesis child isChild isValue
    cases expr with
    | var | intConst | floatConst | boolConst => exact evaluated
    | cast dtype operand =>
      obtain ⟨input, lanes, isInput, equal, rfl⟩ := evaluate_cast_eq_some.mp evaluated
      exact evaluate_cast_eq_some.mpr ⟨input, lanes, ofChild _ (by simp [children]) _ isInput,
        mapM_mono (fun _ _ _ isLane => Scalar.cast?_mono weaker isLane) equal, rfl⟩
    | binary dtype op lhs rhs =>
      obtain ⟨left, right, lanes, isLeft, isRight, equal, rfl⟩ :=
        evaluate_binary_eq_some.mp evaluated
      exact evaluate_binary_eq_some.mpr ⟨left, right, lanes, ofChild _ (by simp [children]) _ isLeft,
        ofChild _ (by simp [children]) _ isRight,
        mapM_mono (fun _ _ _ isLane => Scalar.binary?_mono weaker isLane) equal, rfl⟩
    | not dtype operand =>
      obtain ⟨input, lanes, isInput, equal, rfl⟩ := evaluate_not_eq_some.mp evaluated
      exact evaluate_not_eq_some.mpr ⟨input, lanes, ofChild _ (by simp [children]) _ isInput, equal,
        rfl⟩
    | select dtype cond onTrue onFalse =>
      obtain ⟨truth, taken, refused, lanes, isTruth, isTaken, isRefused, equal, rfl⟩ :=
        evaluate_select_eq_some.mp evaluated
      exact evaluate_select_eq_some.mpr ⟨truth, taken, refused, lanes,
        ofChild _ (by simp [children]) _ isTruth, ofChild _ (by simp [children]) _ isTaken,
        ofChild _ (by simp [children]) _ isRefused, equal, rfl⟩
    | ramp dtype base stride count =>
      obtain ⟨first, first', step, step', lanes, isFirst, firstInt, isStep, stepInt, equal, rfl⟩ :=
        evaluate_ramp_eq_some.mp evaluated
      exact evaluate_ramp_eq_some.mpr ⟨first, first', step, step', lanes,
        ofChild _ (by simp [children]) _ isFirst, firstInt, ofChild _ (by simp [children]) _ isStep,
        stepInt, mapM_mono (fun _ _ _ isLane => Scalar.map_check_mono weaker isLane) equal, rfl⟩
    | broadcast dtype operand count =>
      obtain ⟨input, isInput, rfl⟩ := evaluate_broadcast_eq_some.mp evaluated
      exact evaluate_broadcast_eq_some.mpr ⟨input, ofChild _ (by simp [children]) _ isInput, rfl⟩
    | shuffle dtype vectors indices =>
      obtain ⟨lanes, chosen, areLanes, equal, rfl⟩ := evaluate_shuffle_eq_some.mp evaluated
      exact evaluate_shuffle_eq_some.mpr
        ⟨lanes, chosen, evaluateLanes_mono ofChild areLanes, equal, rfl⟩
    | letIn dtype name operand body =>
      obtain ⟨bound, isBound, isResult⟩ := evaluate_letIn_eq_some.mp evaluated
      exact evaluate_letIn_eq_some.mpr ⟨bound, ofChild _ (by simp [children]) _ isBound,
        inductionHypothesis body (by simp [children]) isResult⟩
    | call dtype op args => exact evaluate_call_mono weaker ofChild evaluated

end

/-- A value that fits its type everywhere is the exact value. -/
theorem evalExact_of_eval {expr : Expr} {env : Environment} {value : Value}
    (evaluated : expr.eval env = some value) : expr.evalExact env = some value :=
  evaluate_mono weaker_unbounded evaluated

/-- A binary node of integer type is an arithmetic one on integers. -/
theorem arithmetic_of_isInteger {op : BinaryOp} {operand : DataType}
    (isInteger : (binaryType op operand).isInteger = true)
    (logical : op.isLogical = true → operand.isBool = true) :
    op.opClass = .arithmetic ∧ operand.isInteger = true := by
  unfold binaryType BinaryOp.isComparison at isInteger
  unfold BinaryOp.isLogical at logical
  cases isClass : op.opClass with
  | arithmetic => exact ⟨rfl, by simpa [isClass] using isInteger⟩
  | comparison =>
    rw [isClass] at isInteger
    cases isInteger
  | logical =>
    rw [isClass] at isInteger logical
    have notInteger := DataType.isInteger_of_isBool (logical rfl)
    exact absurd isInteger (by simp [notInteger])

/-! ### Scalars -/

/-- A binary node of two scalars has the value of the operator on them. -/
theorem evaluate_binary_scalar {check : RangeCheck} {env : Environment} {dtype : DataType}
    {op : BinaryOp} {lhs rhs : Expr} {left right : Value} (scalar : dtype.lanes = 1)
    (isLeft : evaluate check env lhs = some left) (isRight : evaluate check env rhs = some right)
    (leftKind : left.OfKind lhs.dtype) (rightKind : right.OfKind rhs.dtype) :
    evaluate check env (binary dtype op lhs rhs) =
      Scalar.binary? check lhs.dtype.element op left right := by
  rw [evaluate, isLeft, isRight, scalar]
  cases computed : Scalar.binary? check lhs.dtype.element op left right <;>
    simp [zipLanes?, leftKind.toLanes_one, rightKind.toLanes_one, computed, Value.ofLanes]

/-- The conversion of a scalar has the value that the scalar converts to. -/
theorem evaluate_cast_scalar {check : RangeCheck} {env : Environment} {dtype kind : DataType}
    {operand : Expr} {value : Value} (scalar : dtype.lanes = 1)
    (evaluated : evaluate check env operand = some value) (ofKind : value.OfKind kind) :
    evaluate check env (cast dtype operand) = Scalar.cast? check dtype.element value := by
  rw [evaluate, evaluated, scalar]
  cases converted : Scalar.cast? check dtype.element value <;>
    simp [ofKind.toLanes_one, converted, Value.ofLanes]

end Expr

end IndexAlgebra
