/-
This file reads the integer in one lane of the value of an expression. The lane of a binary node is
what its operator makes of the same lanes of its operands, and two expressions of one type have the
same value if they have the same integer in every lane. It also says which integers the nodes have
that are built of given operands, and that the integers of an integer type are in its range.
-/
import IndexAlgebra.Proofs.Coherence
import IndexAlgebra.Proofs.ExactValues
import IndexAlgebra.Proofs.InferredCongruence

namespace IndexAlgebra

/-! ### Checks -/

/-- The check changes no result, and it lets every result pass that is in the range of its type. -/
class RangeCheck.Lawful (check : RangeCheck) : Prop where
  unchanged : ∀ {dtype number passed}, check dtype number = some passed → passed = number
  weaker : Expr.Weaker .checked check

instance : RangeCheck.Lawful .checked where
  unchanged passes := (RangeCheck.checked_eq_some.mp passes).2.2.symm
  weaker _ _ _ := id

instance : RangeCheck.Lawful .unbounded where
  unchanged passes := (Option.some.inj passes).symm
  weaker := Expr.weaker_unbounded

/-! ### Lanes of a value -/

theorem mapM_eq_some_iff_map {α β : Type} {f : α → Option β} {inputs : List α} {results : List β} :
    inputs.mapM f = some results ↔ inputs.map f = results.map some := by
  induction inputs generalizing results with
  | nil => cases results <;> simp
  | cons input rest inductionHypothesis =>
    cases results with
    | nil => simp [Option.bind_eq_some_iff]
    | cons result others => simp [Option.bind_eq_some_iff, inductionHypothesis]

/-- A function applied to a list has the results if it has each of them at its place. -/
theorem mapM_eq_some_iff {α β : Type} {f : α → Option β} {inputs : List α} {results : List β} :
    inputs.mapM f = some results ↔
      ∀ index : Nat, inputs[index]?.map f = results[index]?.map some := by
  rw [mapM_eq_some_iff_map, List.ext_getElem?_iff]
  simp only [List.getElem?_map]

/-- The results of a function applied to a list stand at the places of the elements. -/
theorem getElem?_of_mapM {α β : Type} {f : α → Option β} {inputs : List α} {results : List β}
    (equal : inputs.mapM f = some results) (index : Nat) : results[index]? = inputs[index]?.bind f := by
  have same := mapM_eq_some_iff.mp equal index
  cases isInput : inputs[index]? <;> cases isResult : results[index]? <;>
    rw [isInput, isResult] at same
  · rfl
  · cases same
  · cases same
  · exact (Option.some.inj same).symm

namespace Value

/-- The lanes that a value is made of are its lanes. -/
theorem Kinded.toLanes_ofLanes {dtype : DataType} {lanes : List Value}
    (kinded : (ofLanes lanes).Kinded dtype) (length : lanes.length = dtype.lanes) :
    (ofLanes lanes).toLanes dtype.lanes = lanes := by
  by_cases single : lanes.length = 1
  · have ofKind := kinded.ofKind (length.symm.trans single)
    obtain ⟨lane, rfl⟩ := List.length_eq_one_iff.mp single
    rw [← length]
    exact ofKind.toLanes_one
  · rw [ofLanes_of_length single]
    rfl

/-- A value is made of its lanes. -/
theorem Kinded.ofLanes_toLanes {dtype : DataType} {value : Value} (kinded : value.Kinded dtype) :
    ofLanes (value.toLanes dtype.lanes) = value := by
  have isKinded := kinded
  obtain ⟨lanes, rfl, length, -⟩ := kinded
  rw [isKinded.toLanes_ofLanes length]

/-- A lane of an integer type is an integer. -/
theorem OfKind.exists_int {dtype : DataType} {lane : Value} (ofKind : lane.OfKind dtype)
    (isInteger : dtype.isInteger = true) : ∃ number, lane = .int number := by
  cases lane with
  | int number => exact ⟨number, rfl⟩
  | bool truth =>
    rw [OfKind, DataType.isBool_of_isInteger isInteger] at ofKind
    contradiction
  | float number =>
    rw [OfKind, DataType.isFloat_of_isInteger isInteger] at ofKind
    contradiction
  | vector lanes => exact ofKind.elim

end Value

namespace Scalar

variable {check : RangeCheck} [check.Lawful]

/-- An arithmetic operator gives the integer that it gives in a lane, where the result passes. -/
theorem onLane_of_binaryInt? {dtype : DataType} {op : BinaryOp} {left right number : Int}
    (computed : binaryInt? check dtype op left right = some (.int number)) :
    op.onLane left right = some number := by
  have passed : ∀ result, (check dtype result).map Value.int = some (.int number) →
      some result = some number := by
    intro result equal
    obtain ⟨checked, passes, same⟩ := Option.map_eq_some_iff.mp equal
    cases same
    exact congrArg some (RangeCheck.Lawful.unchanged passes).symm
  unfold binaryInt? at computed
  cases op <;>
    simp only [Option.ite_none_left_eq_some, Option.some.injEq, reduceCtorEq] at computed
  case add | sub | mul | min | max => exact passed _ computed
  case truncDiv | truncMod | floorDiv | floorMod =>
    exact (if_neg computed.1).trans (passed _ computed.2)

/-- What an operator makes of two lanes is what it makes of their integers. -/
theorem onLane_of_binary? {dtype element : DataType} {op : BinaryOp} {left right lane : Value}
    {number : Int} (leftKind : left.OfKind dtype) (notFloat : dtype.isFloat = false)
    (computed : binary? check element op left right = some lane)
    (isNumber : lane.asInt? = some number) :
    ∃ first, left.asInt? = some first ∧ ∃ second, right.asInt? = some second ∧
      op.onLane first second = some number := by
  have ofInts {first second : Int}
      (computed : binaryInt? check element op first second = some lane) :
      op.onLane first second = some number := by
    rcases Expr.binaryInt?_kind computed with ⟨-, result, rfl⟩ | ⟨notArithmetic, truth, rfl⟩
    · cases isNumber
      exact onLane_of_binaryInt? computed
    · cases isNumber
      cases op <;> first | exact absurd rfl notArithmetic | cases computed
      all_goals rfl
  cases left <;> cases right <;> try contradiction
  case int.int first second => exact ⟨first, rfl, second, rfl, ofInts computed⟩
  case bool.bool first second =>
    refine ⟨first.toNat, rfl, second.toNat, rfl, ?_⟩
    unfold binary? at computed
    cases op
    case and | or | eq | ne =>
      cases computed
      cases isNumber
      cases first <;> cases second <;> rfl
    all_goals exact ofInts computed
  case float.float =>
    rw [Value.OfKind, notFloat] at leftKind
    contradiction

end Scalar

namespace Expr

variable {check : RangeCheck} {env : Environment} {expr result lhs rhs : Expr} {op : BinaryOp}
  {dtype : DataType}
  {index : Nat} {number value : Int}

/-! ### Lanes of expressions -/

/-- The integer in one lane of the value of an expression, where a truth value is zero or one. -/
def valueIn (check : RangeCheck) (env : Environment) (expr : Expr) (index : Nat) : Option Int := do
  let value ← expr.evaluate check env
  let lane ← (value.toLanes expr.lanes)[index]?
  lane.asInt?

/-- The integer in one lane of the checked value of an expression. -/
def valueAt (env : Environment) (expr : Expr) (index : Nat) : Option Int := do
  let value ← expr.eval env
  let lane ← (value.toLanes expr.lanes)[index]?
  lane.asInt?

theorem valueIn_eq_some : expr.valueIn check env index = some number ↔
    ∃ value, expr.evaluate check env = some value ∧
      ∃ lane, (value.toLanes expr.lanes)[index]? = some lane ∧ lane.asInt? = some number := by
  simp only [valueIn, Option.bind_eq_bind, Option.bind_eq_some_iff]

/-- The integer in a lane is one of the value. -/
theorem reads_of_valueAt (isNumber : expr.valueAt env index = some number) : Reads env expr number := by
  obtain ⟨value, evaluated, lane, isLane, isInt⟩ := valueIn_eq_some.mp isNumber
  exact ⟨value, evaluated, Value.mem_ints_of_toLanes (List.mem_of_getElem? isLane)
    (Value.mem_ints_of_asInt? isInt)⟩

/-- An expression with an integer as its value has that integer in every lane. -/
theorem valueIn_of_evaluate_int (evaluated : expr.evaluate check env = some (.int value))
    (isNumber : expr.valueIn check env index = some number) : number = value := by
  obtain ⟨found, isFound, lane, isLane, isInt⟩ := valueIn_eq_some.mp isNumber
  cases evaluated.symm.trans isFound
  cases List.eq_of_mem_replicate (List.mem_of_getElem? isLane)
  exact (Option.some.inj isInt).symm

theorem valueIn_intConst (isNumber : (intConst dtype value).valueIn check env index = some number) :
    number = value := valueIn_of_evaluate_int rfl isNumber

theorem valueIn_boolConst {truth : Bool}
    (isNumber : (boolConst dtype truth).valueIn check env index = some number) :
    number = truth.toNat := by
  obtain ⟨_, evaluated, lane, isLane, isInt⟩ := valueIn_eq_some.mp isNumber
  cases evaluated
  cases List.eq_of_mem_replicate (List.mem_of_getElem? isLane)
  exact (Option.some.inj isInt).symm

/-- Every lane of a broadcast is the only lane of its value. -/
theorem valueIn_broadcast {inner : Expr} {lanes : Nat} (typed : (broadcast dtype inner lanes).WellTyped)
    (kinded : env.Kinded)
    (isNumber : (broadcast dtype inner lanes).valueIn check env index = some number) :
    inner.valueIn check env 0 = some number := by
  rw [WellTyped] at typed
  obtain ⟨innerTyped, scalar, -⟩ := typed
  obtain ⟨_, evaluated, lane, isLane, isInt⟩ := valueIn_eq_some.mp isNumber
  obtain ⟨operand, isOperand, rfl⟩ := evaluate_broadcast_eq_some.mp evaluated
  have same := List.eq_of_mem_replicate (List.mem_of_getElem? isLane)
  subst same
  have ofKind := (evaluate_kinded innerTyped kinded isOperand).ofKind scalar
  refine valueIn_eq_some.mpr ⟨lane, isOperand, lane, ?_, isInt⟩
  rw [scalar, ofKind.toLanes_one, List.getElem?_cons_zero]

/-- The lanes of the value of a binary node are what its operator makes of those of its operands. -/
theorem WellTyped.toLanes_of_eval_binary {result : Value}
    (typed : (binary dtype op lhs rhs).WellTyped) (kinded : env.Kinded)
    (evaluated : (binary dtype op lhs rhs).evaluate check env = some result) :
    ∃ left right, lhs.evaluate check env = some left ∧ rhs.evaluate check env = some right ∧
      ((left.toLanes lhs.lanes).zip (right.toLanes rhs.lanes)).mapM
          (fun lane => Scalar.binary? check lhs.dtype.element op lane.1 lane.2) =
        some (result.toLanes dtype.lanes) := by
  have isKinded : result.Kinded (binary dtype op lhs rhs).dtype := evaluate_kinded typed kinded evaluated
  rw [Expr.dtype] at isKinded
  rw [WellTyped] at typed
  obtain ⟨leftTyped, rightTyped, same, rfl, -⟩ := typed
  obtain ⟨left, right, lanes, isLeft, isRight, computed, rfl⟩ := evaluate_binary_eq_some.mp evaluated
  have length : lanes.length = (binaryType op lhs.dtype).lanes := by
    rw [← (forall₂_of_mapM computed).length_eq, List.length_zip,
      ((evaluate_kinded leftTyped kinded isLeft).toLanes _ (.inl (lanes_binaryType ..).symm)).1,
      ((evaluate_kinded rightTyped kinded isRight).toLanes _
        (.inl (by rw [lanes_binaryType, same]))).1, Nat.min_self]
  refine ⟨left, right, isLeft, isRight, ?_⟩
  rw [isKinded.toLanes_ofLanes length, Expr.lanes, Expr.lanes, ← same, ← lanes_binaryType op]
  exact computed

/-- The lane of a binary node is what its operator makes of the lanes of its operands. -/
theorem WellTyped.valueIn_binary [check.Lawful] (typed : (binary dtype op lhs rhs).WellTyped)
    (kinded : env.Kinded)
    (notFloat : lhs.dtype.isFloat = false)
    (isNumber : (binary dtype op lhs rhs).valueIn check env index = some number) :
    ∃ left, lhs.valueIn check env index = some left ∧ ∃ right, rhs.valueIn check env index = some right ∧
      op.onLane left right = some number := by
  obtain ⟨_, evaluated, lane, isLane, isInt⟩ := valueIn_eq_some.mp isNumber
  obtain ⟨left, right, isLeft, isRight, computed⟩ := typed.toLanes_of_eval_binary kinded evaluated
  rw [WellTyped] at typed
  have leftKind := ((evaluate_kinded typed.1 kinded isLeft).toLanes lhs.lanes (.inl rfl)).2
  rw [Expr.lanes, Expr.dtype, getElem?_of_mapM computed] at isLane
  obtain ⟨⟨first, second⟩, isInput, isResult⟩ := Option.bind_eq_some_iff.mp isLane
  obtain ⟨isFirst, isSecond⟩ := List.getElem?_zip_eq_some.mp isInput
  obtain ⟨a, isA, b, isB, combined⟩ := Scalar.onLane_of_binary?
    (leftKind first (List.mem_of_getElem? isFirst)) notFloat isResult isInt
  exact ⟨a, valueIn_eq_some.mpr ⟨left, isLeft, first, isFirst, isA⟩, b,
    valueIn_eq_some.mpr ⟨right, isRight, second, isSecond, isB⟩, combined⟩

/-! ### Lanes of what the builders build -/

/-- The expression is well typed, has the type, and has no other integers in its lanes than the given
ones. -/
structure Yields (check : RangeCheck) (env : Environment) (expr : Expr) (dtype : DataType)
    (numbers : Nat → Option Int) : Prop where
  typed : expr.WellTyped
  isType : expr.dtype = dtype
  only : ∀ index number, expr.valueIn check env index = some number → numbers index = some number

theorem WellTyped.yields (typed : expr.WellTyped) :
    Yields check env expr expr.dtype (expr.valueIn check env) :=
  ⟨typed, rfl, fun _ _ => id⟩

theorem Yields.binary? [check.Lawful] {built : Expr} {left right : Nat → Option Int}
    (isLeft : Yields check env lhs dtype left)
    (isRight : Yields check env rhs dtype right) (kinded : env.Kinded) (notFloat : dtype.isFloat = false)
    (builds : binary? op lhs rhs = some built) :
    Yields check env built (binaryType op dtype) fun index =>
      (left index).bind fun left => (right index).bind fun right => op.onLane left right := by
  have same : lhs.dtype = rhs.dtype := isLeft.isType.trans isRight.isType.symm
  obtain ⟨rfl, truths⟩ := binary?_eq_some same builds
  have typed : (binary (binaryType op lhs.dtype) op lhs rhs).WellTyped := by
    rw [WellTyped]
    exact ⟨isLeft.typed, isRight.typed, same, rfl, fun logical => truths (beq_iff_eq.mp logical)⟩
  refine ⟨typed, by rw [Expr.dtype, isLeft.isType], fun index number isNumber => ?_⟩
  obtain ⟨a, isA, b, isB, combined⟩ :=
    typed.valueIn_binary kinded (isLeft.isType ▸ notFloat) isNumber
  rw [isLeft.only index a isA, isRight.only index b isB]
  exact combined

theorem yields_scalarOfInt (valid : dtype.Valid) (scalar : dtype.lanes = 1)
    (notFloat : dtype.isFloat = false) (fits : dtype.fits value = true) :
    Yields check env (scalarOfInt dtype value) dtype fun _ => some value := by
  unfold scalarOfInt
  rw [if_neg (by simp [notFloat])]
  by_cases isBool : dtype.isBool = true
  · rw [if_pos isBool]
    have isType : dtype = .bool := DataType.eq_bool valid isBool scalar
    refine ⟨by rw [WellTyped]; exact isType, rfl, fun index number isNumber => ?_⟩
    rw [valueIn_boolConst isNumber]
    rcases DataType.zero_or_one_of_fits isBool fits with rfl | rfl <;> rfl
  · rw [if_neg isBool]
    have isInteger := DataType.isInteger_of_other notFloat (by simpa using isBool)
    refine ⟨by rw [WellTyped]; exact ⟨valid, isInteger, scalar, fits⟩, rfl, ?_⟩
    intro index number isNumber
    rw [valueIn_intConst isNumber]

/-- The constant of a type has the value in every lane. -/
theorem yields_ofInt (kinded : env.Kinded) (valid : dtype.Valid) (notFloat : dtype.isFloat = false)
    (fits : dtype.fits value = true) :
    Yields check env (ofInt dtype value) dtype fun _ => some value := by
  unfold ofInt
  by_cases several : dtype.isVector = true
  · rw [if_pos several]
    have scalar : Yields check env (scalarOfInt dtype.element value) dtype.element fun _ => some value :=
      yields_scalarOfInt (valid_withLanes valid le_rfl) rfl notFloat fits
    have typed : (broadcast dtype (scalarOfInt dtype.element value) dtype.lanes).WellTyped := by
      rw [WellTyped, Expr.lanes, scalar.isType]
      exact ⟨scalar.typed, rfl, of_decide_eq_true several, rfl⟩
    refine ⟨typed, rfl, fun index number isNumber => ?_⟩
    exact scalar.only 0 number (valueIn_broadcast typed kinded isNumber)
  · rw [if_neg several]
    have few : ¬1 < dtype.lanes := by simpa [DataType.isVector] using several
    have some := valid.2.2.1
    exact yields_scalarOfInt valid (by omega) notFloat fits

theorem Yields.constantLike? {built term : Expr} {numbers : Nat → Option Int}
    (isTerm : Yields check env term dtype numbers) (kinded : env.Kinded)
    (builds : constantLike? term value = some built) :
    Yields check env built dtype fun _ => some value := by
  obtain ⟨typed, rfl, -⟩ := isTerm
  obtain ⟨⟨-, isInteger, fits⟩, equal⟩ := Option.ite_none_right_eq_some.mp builds
  cases equal
  exact yields_ofInt kinded typed.valid (DataType.isFloat_of_isInteger isInteger) fits

theorem Yields.binaryConst? [check.Lawful] {built : Expr} {left : Nat → Option Int}
    (isLeft : Yields check env lhs dtype left) (kinded : env.Kinded)
    (builds : binaryConst? op lhs value = some built) :
    Yields check env built (binaryType op dtype) fun index =>
      (left index).bind fun left => op.onLane left value := by
  obtain ⟨constant, isConstant, builds⟩ := Option.bind_eq_some_iff.mp builds
  have isInteger := isInteger_of_constant? isConstant
  have isRight := isLeft.constantLike? kinded isConstant
  rw [isLeft.isType] at isInteger
  exact isLeft.binary? isRight kinded (DataType.isFloat_of_isInteger isInteger) builds

theorem Yields.constBinary? [check.Lawful] {built : Expr} {right : Nat → Option Int}
    (isRight : Yields check env rhs dtype right) (kinded : env.Kinded)
    (builds : constBinary? op value rhs = some built) :
    Yields check env built (binaryType op dtype) fun index =>
      (right index).bind fun right => op.onLane value right := by
  obtain ⟨constant, isConstant, builds⟩ := Option.bind_eq_some_iff.mp builds
  have isInteger := isInteger_of_constant? isConstant
  have isLeft := isRight.constantLike? kinded isConstant
  rw [isRight.isType] at isInteger
  exact isLeft.binary? isRight kinded (DataType.isFloat_of_isInteger isInteger) builds

/-! ### Expressions that agree -/

/-- The second expression has the type of the first one, and the same integer in every lane where both
have one. -/
structure Agrees (check : RangeCheck) (env : Environment) (expr result : Expr) : Prop where
  typed : result.WellTyped
  isType : result.dtype = expr.dtype
  same : ∀ index first second, expr.valueIn check env index = some first →
    result.valueIn check env index = some second → first = second

theorem Yields.agrees {numbers : Nat → Option Int} (yields : Yields check env result dtype numbers)
    (isType : dtype = expr.dtype)
    (same : ∀ index number, expr.valueIn check env index = some number → numbers index = some number) :
    Agrees check env expr result := by
  refine ⟨yields.typed, yields.isType.trans isType, fun index first second isFirst isSecond => ?_⟩
  exact Option.some.inj ((same index first isFirst).symm.trans (yields.only index second isSecond))

/-- Expressions that agree have the same value, if the lanes of both values are of a kind that is told
by the integer. -/
theorem Agrees.eq_of_lanes (agrees : Agrees check env expr result) (typed : expr.WellTyped)
    (kinded : env.Kinded) {first second : Value} (isFirst : expr.evaluate check env = some first)
    (isSecond : result.evaluate check env = some second)
    (alike : ∀ left ∈ first.toLanes expr.lanes, ∀ right ∈ second.toLanes expr.lanes,
      ∃ a b, left.asInt? = some a ∧ right.asInt? = some b ∧ (a = b → left = right)) :
    first = second := by
  have firstKinded := evaluate_kinded typed kinded isFirst
  have secondKinded := evaluate_kinded agrees.typed kinded isSecond
  rw [agrees.isType] at secondKinded
  have length := (firstKinded.toLanes expr.lanes (.inl rfl)).1.trans
    (secondKinded.toLanes expr.lanes (.inl rfl)).1.symm
  rw [← firstKinded.ofLanes_toLanes, ← secondKinded.ofLanes_toLanes]
  refine congrArg Value.ofLanes (List.ext_getElem length fun index inFirst inSecond => ?_)
  obtain ⟨a, b, isA, isB, equal⟩ :=
    alike _ (List.getElem_mem inFirst) _ (List.getElem_mem inSecond)
  refine equal (agrees.same index a b ?_ ?_)
  · exact valueIn_eq_some.mpr ⟨first, isFirst, _, List.getElem?_eq_getElem inFirst, isA⟩
  · refine valueIn_eq_some.mpr ⟨second, isSecond, _, ?_, isB⟩
    rw [Expr.lanes, agrees.isType]
    exact List.getElem?_eq_getElem inSecond

theorem Agrees.eq_of_isInteger (agrees : Agrees check env expr result) (typed : expr.WellTyped)
    (kinded : env.Kinded) (isInteger : expr.dtype.isInteger = true) {first second : Value}
    (isFirst : expr.evaluate check env = some first)
    (isSecond : result.evaluate check env = some second) :
    first = second := by
  refine agrees.eq_of_lanes typed kinded isFirst isSecond fun left isLeft right isRight => ?_
  have firstKinded := evaluate_kinded typed kinded isFirst
  have secondKinded := evaluate_kinded agrees.typed kinded isSecond
  rw [agrees.isType] at secondKinded
  obtain ⟨a, rfl⟩ := ((firstKinded.toLanes expr.lanes (.inl rfl)).2 left isLeft).exists_int isInteger
  obtain ⟨b, rfl⟩ := ((secondKinded.toLanes expr.lanes (.inl rfl)).2 right isRight).exists_int isInteger
  exact ⟨a, b, rfl, rfl, congrArg Value.int⟩

end Expr

/-! ### Integers in range -/

/-- Every integer of the value of a variable of an integer type is in the range of the type. -/
def Environment.InRange (env : Environment) : Prop :=
  ∀ name value, env name = some value → name.dtype.isInteger = true →
    ∀ number ∈ value.ints, name.dtype.fits number = true

theorem Environment.Typed.inRange {env : Environment} (typed : env.Typed) : env.InRange := by
  intro name value isValue _ number member
  obtain ⟨lanes, rfl, -, inLanes⟩ := (typed name value isValue).1
  obtain ⟨lane, isLane, inLane⟩ := Value.mem_ints_ofLanes.mp member
  exact Value.fits_of_mem_ints (inLanes lane isLane) inLane

theorem Environment.InRange.set {env : Environment} (inRange : env.InRange) {name : Variable}
    {value : Value} (fits : name.dtype.isInteger = true → ∀ number ∈ value.ints,
      name.dtype.fits number = true) : (env.set name value).InRange := by
  intro other result isResult isInteger number member
  by_cases same : other = name
  · subst same
    rw [Environment.set_self] at isResult
    cases isResult
    exact fits isInteger number member
  · rw [Environment.set_of_ne _ _ same] at isResult
    exact inRange other result isResult isInteger number member

namespace Expr

variable {env : Environment} {expr lhs rhs : Expr} {op : BinaryOp} {dtype : DataType} {number : Int}

theorem fits_of_reads_cast (isInteger : dtype.isInteger = true)
    (reads : Reads env (cast dtype expr) number) : dtype.fits number = true := by
  obtain ⟨_, evaluated, member⟩ := reads
  obtain ⟨operand, lanes, -, equal, rfl⟩ := evaluate_cast_eq_some.mp evaluated
  obtain ⟨lane, isLane, inLane⟩ := Value.mem_ints_ofLanes.mp member
  obtain ⟨input, -, converted⟩ := exists_of_mem_mapM equal isLane
  unfold Scalar.cast? at converted
  rw [if_neg (by simp [DataType.isBool_of_isInteger isInteger]),
    if_neg (by simp [DataType.isFloat_of_isInteger isInteger])] at converted
  obtain ⟨integer, -, checked⟩ := Option.bind_eq_some_iff.mp converted
  obtain ⟨result, isResult, rfl⟩ := Option.map_eq_some_iff.mp checked
  obtain ⟨-, fits, rfl⟩ := RangeCheck.checked_eq_some.mp isResult
  rw [Value.ints_int, List.mem_singleton] at inLane
  exact inLane ▸ fits

theorem fits_of_reads_binary (typed : (binary dtype op lhs rhs).WellTyped)
    (isInteger : dtype.isInteger = true) (reads : Reads env (binary dtype op lhs rhs) number) :
    dtype.fits number = true := by
  rw [WellTyped] at typed
  obtain ⟨-, -, -, rfl, logical⟩ := typed
  obtain ⟨arithmetic, -⟩ := arithmetic_of_isInteger isInteger logical
  rw [binaryType_of_arithmetic arithmetic]
  rcases reads_binary reads with ⟨notArithmetic, -⟩ | ⟨left, right, -, -, result⟩
  · exact absurd arithmetic notArithmetic
  · exact (onLane_of_binaryInt? result).2.1

/-- Every integer of the value of a well-typed expression of an integer type is in its range. -/
theorem fits_of_reads_isInteger (typed : expr.WellTyped) (isInteger : expr.dtype.isInteger = true)
    (inRange : env.InRange) (reads : Reads env expr number) : expr.dtype.fits number = true := by
  induction expr using childrenInduction generalizing env number with
  | step expr inductionHypothesis =>
    have ofChild : ∀ child ∈ expr.children, child.dtype.isInteger = true → Reads env child number →
        child.dtype.fits number = true := fun child isChild isInteger reads =>
      inductionHypothesis child isChild (typed.child isChild) isInteger inRange reads
    cases expr with
    | var dtype name =>
      rw [WellTyped] at typed
      obtain ⟨value, evaluated, member⟩ := reads
      rw [Expr.dtype, typed.1] at isInteger ⊢
      exact inRange name value evaluated isInteger number member
    | intConst dtype value =>
      rw [WellTyped] at typed
      obtain ⟨_, evaluated, member⟩ := reads
      cases evaluated
      rw [Value.ints_int, List.mem_singleton] at member
      exact member ▸ typed.2.2.2
    | floatConst dtype value =>
      rw [WellTyped] at typed
      cases typed.2.1.symm.trans (DataType.isFloat_of_isInteger isInteger)
    | boolConst dtype truth =>
      rw [WellTyped] at typed
      rw [Expr.dtype, typed] at isInteger
      cases isInteger
    | cast dtype value => exact fits_of_reads_cast isInteger reads
    | binary dtype op lhs rhs => exact fits_of_reads_binary typed isInteger reads
    | not dtype value =>
      rw [WellTyped] at typed
      rw [Expr.dtype, DataType.isInteger_of_isBool typed.2.2] at isInteger
      cases isInteger
    | select dtype cond onTrue onFalse =>
      rw [WellTyped] at typed
      obtain ⟨-, -, -, -, same, rfl, -⟩ := typed
      rcases reads_select reads with taken | refused
      · exact ofChild onTrue (by simp [children]) isInteger taken
      · have fits := ofChild onFalse (by simp [children]) (same ▸ isInteger) refused
        rwa [← same] at fits
    | ramp dtype base stride lanes => exact (fits_of_reads_ramp reads).2
    | broadcast dtype value lanes =>
      rw [WellTyped] at typed
      obtain ⟨-, -, -, rfl⟩ := typed
      exact ofChild value (List.mem_singleton_self value) isInteger (reads_broadcast reads)
    | shuffle dtype vectors indices =>
      rw [WellTyped] at typed
      obtain ⟨vector, isVector, readsVector⟩ := reads_shuffle reads
      have same := typed.2.1 vector isVector
      have fits := ofChild vector isVector
        (by rw [← DataType.isInteger_element, same]; exact isInteger) readsVector
      rwa [← DataType.fits_element, same, DataType.fits_element] at fits
    | letIn dtype name value body =>
      have isValue : value ∈ (letIn dtype name value body).children := by simp [children]
      have isBody : body ∈ (letIn dtype name value body).children := by simp [children]
      have valueTyped := typed.child isValue
      have bodyTyped := typed.child isBody
      rw [WellTyped] at typed
      obtain ⟨-, -, named, rfl⟩ := typed
      obtain ⟨bound, evaluated, readsBody⟩ := reads_letIn reads
      refine inductionHypothesis body isBody bodyTyped isInteger (inRange.set ?_) readsBody
      intro isInteger number member
      rw [← named] at isInteger ⊢
      exact inductionHypothesis value isValue valueTyped isInteger inRange ⟨bound, evaluated, member⟩
    | call dtype op args =>
      rw [WellTyped] at typed
      rcases reads_call reads with fits | ⟨cond, onTrue, onFalse, rfl, rfl, taken | refused⟩
      · exact fits
      · obtain ⟨-, -, -, isTrue, -⟩ := typed
        have fits := ofChild onTrue (by simp [children]) (by rw [isTrue]; exact isInteger) taken
        rwa [isTrue] at fits
      · obtain ⟨-, -, -, -, isFalse⟩ := typed
        have fits := ofChild onFalse (by simp [children]) (by rw [isFalse]; exact isInteger) refused
        rwa [isFalse] at fits

/-- The check lets every integer pass that an expression of an integer type has. -/
def PassesIntegers (check : RangeCheck) (env : Environment) : Prop :=
  ∀ {expr : Expr} {value : Value} {number : Int}, expr.WellTyped → expr.dtype.isInteger = true →
    expr.evaluate check env = some value → number ∈ value.ints →
      check expr.dtype.element number = some number

theorem passesIntegers_checked (inRange : env.InRange) : PassesIntegers .checked env := by
  intro expr value number typed isInteger evaluated member
  have fits := fits_of_reads_isInteger typed isInteger inRange ⟨value, evaluated, member⟩
  exact RangeCheck.checked_eq_some.mpr
    ⟨Bound.word_of_fits (DataType.isFloat_of_isInteger isInteger) fits, fits, rfl⟩

theorem passesIntegers_unbounded (env : Environment) : PassesIntegers .unbounded env :=
  fun _ _ _ _ => rfl

end Expr

end IndexAlgebra
