/-
This file proves when the rules for conversions are exact. Integers of fewer than 64 bits wrap around
when they are converted, wider ones have to fit, and truth values are neither; a rule decides by the
ranges of the types alone. An integer that the target can hold converts to itself, by whichever of the
three ways, so that constants are folded, conversions to the same type removed and conversions in
between skipped without a change. Two conversions are not exact: `true` as a signed integer of one bit,
which cannot hold one, and the truth value of an integer, when it is removed.
-/
import IndexAlgebra.Proofs.Exact.Truths
import IndexAlgebra.Reduction.Conversions

namespace IndexAlgebra

namespace DataType

/-- A scalar type of integers of up to 128 bits, or of truth values. -/
structure Discrete (dtype : DataType) : Prop where
  valid : dtype.Valid
  scalar : dtype.lanes = 1
  notFloat : dtype.isFloat = false

instance (dtype : DataType) : Decidable dtype.Discrete :=
  decidable_of_iff (dtype.Valid ∧ dtype.lanes = 1 ∧ dtype.isFloat = false)
    ⟨fun ⟨valid, scalar, notFloat⟩ => ⟨valid, scalar, notFloat⟩,
      fun ⟨valid, scalar, notFloat⟩ => ⟨valid, scalar, notFloat⟩⟩

/-- Of these types only the signed integers of one bit cannot hold one. -/
theorem Discrete.eq_of_not_fits_one {dtype : DataType} (discrete : dtype.Discrete)
    (tooLarge : dtype.fits 1 = false) : dtype = .scalar .int 1 := by
  obtain ⟨⟨someBits, -⟩, scalar, notFloat⟩ := discrete
  obtain ⟨code, bits, lanes⟩ := dtype
  obtain ⟨bits, rfl⟩ : ∃ less, bits = less + 1 := ⟨bits - 1, (Nat.sub_add_cancel someBits).symm⟩
  obtain rfl : lanes = 1 := scalar
  have positive := twoPow_pos bits
  have double := twoPow_succ bits
  cases code with
  | int =>
    cases bits with
    | zero => rfl
    | succ bits =>
      have positive' := twoPow_pos bits
      have double' := twoPow_succ bits
      simp only [fits, minInt?, maxInt?, Nat.add_sub_cancel, decide_eq_false_iff_not, Word.least,
        Word.greatest] at tooLarge
      split at tooLarge <;> omega
  | uint =>
    simp only [fits, minInt?, maxInt?, decide_eq_false_iff_not, Word.greatest] at tooLarge
    split at tooLarge <;> omega
  | bool => cases tooLarge
  | float | bfloat => cases notFloat

end DataType

namespace Scalar

variable {dtype : DataType} {value result : Value} {number : Int}

theorem toInteger?_of_asInt? (isInt : value.asInt? = some number) :
    toInteger? value = some number := by
  cases value <;> cases isInt <;> rfl

/-- An integer that the type can hold converts to itself, and so does a truth value to zero or one. -/
theorem cast?_of_fits (someBits : 1 ≤ dtype.bits) (isInteger : dtype.isInteger = true)
    (isInt : value.asInt? = some number) (fits : dtype.fits number = true) :
    cast? .checked dtype value = some (.int number) := by
  have notFloat := DataType.isFloat_of_isInteger isInteger
  have kept : (if 64 ≤ dtype.bits then number else wrap dtype number) = number := by
    split
    next => rfl
    next narrow => exact Bound.wrap_of_fits isInteger someBits narrow fits
  have isChecked : RangeCheck.checked dtype number = some number :=
    RangeCheck.checked_eq_some.mpr ⟨Bound.word_of_fits notFloat fits, fits, rfl⟩
  unfold cast?
  rw [if_neg (by simp [DataType.isBool_of_isInteger isInteger]), if_neg (by simp [notFloat]),
    toInteger?_of_asInt? isInt, Option.bind_some, kept, isChecked]
  rfl

/-- A word that the bound of the type contains converts to itself, if it converts at all. -/
theorem cast?_of_contains_ofType {check : RangeCheck} [check.Lawful] (someBits : 1 ≤ dtype.bits)
    (isInteger : dtype.isInteger = true) (word : Word.Fits number)
    (member : (Bound.ofType dtype).contains number = true)
    (converted : cast? check dtype (.int number) = some result) : result = .int number := by
  by_cases wide : 64 ≤ dtype.bits
  · unfold cast? at converted
    rw [if_neg (by simp [DataType.isBool_of_isInteger isInteger]),
      if_neg (by simp [DataType.isFloat_of_isInteger isInteger]), toInteger?, Option.bind_some,
      if_pos wide] at converted
    obtain ⟨passed, passes, rfl⟩ := Option.map_eq_some_iff.mp converted
    rw [RangeCheck.Lawful.unchanged passes]
  · have fits := Bound.fits_of_contains_narrow isInteger wide word member
    have isSame : cast? .checked dtype (.int number) = some (.int number) :=
      cast?_of_fits someBits isInteger rfl fits
    exact Option.some.inj (converted.symm.trans (cast?_mono RangeCheck.Lawful.weaker isSame))

/-- An integer converts to the truth value that says whether it is not zero. -/
theorem cast?_of_isBool {check : RangeCheck} (isBool : dtype.isBool = true)
    (isInt : value.asInt? = some number) :
    cast? check dtype value = some (.bool (decide (number ≠ 0))) := by
  unfold cast?
  rw [if_pos isBool]
  cases value with
  | int number' => cases isInt; rfl
  | bool truth => cases isInt; cases truth <;> rfl
  | float _ | vector _ => cases isInt

end Scalar

namespace Expr

variable {env : Environment} {answers : Answers} {expr result operand : Expr} {dtype : DataType}
  {value : Value}

/-! ### Operands -/

/-- The expression is a scalar of an integer type or a truth value, and the type can hold its value, if
it has one. Arithmetic on truth values gives zero and one. -/
structure Representable (env : Environment) (expr : Expr) : Prop where
  discrete : expr.dtype.Discrete
  held : ∀ value, expr.eval env = some value → value.OfKind expr.dtype ∧
    ∃ number, value.asInt? = some number ∧ expr.dtype.fits number = true

/-- What is converted: the operand of a conversion, and the integer that the operand converts. -/
def converted : Expr → List Expr
  | cast _ operand =>
    operand :: match operand with
      | cast _ inner => if inner.dtype.isInteger then [inner] else []
      | _ => []
  | _ => []

/-- The value of a conversion is what the value of its operand converts to. -/
theorem Representable.eval_cast (representable : Representable env operand)
    (discrete : dtype.Discrete) (evaluated : (cast dtype operand).eval env = some value) :
    ∃ x number, operand.eval env = some x ∧ x.OfKind operand.dtype ∧ x.asInt? = some number ∧
      operand.dtype.fits number = true ∧ Scalar.cast? .checked dtype x = some value := by
  obtain ⟨x, -, isX, -⟩ := evaluate_cast_eq_some.mp evaluated
  obtain ⟨ofKind, number, isInt, fits⟩ := representable.held x isX
  have converts := evaluate_cast_scalar discrete.scalar isX ofKind
  rw [← eval, evaluated, DataType.element_of_lanes_eq_one discrete.scalar] at converts
  exact ⟨x, number, isX, ofKind, isInt, fits, converts.symm⟩

end Expr

namespace Reduction.Conversions

open IndexAlgebra.Expr

variable {env : Environment} {answers : Answers} {expr result operand : Expr} {dtype : DataType}
  {value : Value}

/-- The conversions that a rule does not keep the value of: `true` as a signed integer of one bit, and
the truth value of an integer, which the integer takes the place of. -/
inductive Inexact (env : Environment) : Expr → Expr → Prop
  | oneBit (source : DataType) :
    Inexact env (cast (.scalar .int 1) (boolConst source true)) (intConst (.scalar .int 1) 1)
  | truth {operand : Expr} {dtype : DataType} {number : Int} (isBool : dtype.isBool = true)
    (evaluated : operand.eval env = some (.int number)) : Inexact env (cast dtype operand) operand

theorem eval_foldCast? (isType : expr.dtype.Discrete)
    (operands : ∀ operand ∈ expr.converted, Representable env operand)
    (applies : foldCast? expr = some result) (evaluated : expr.eval env = some value)
    (exact : ¬Inexact env expr result) : result.eval env = some value := by
  cases expr with
  | cast dtype operand =>
    have target : dtype.Discrete := isType
    obtain ⟨x, number, isX, ofKind, isInt, fits, converts⟩ :=
      (operands operand List.mem_cons_self).eval_cast target evaluated
    obtain ⟨-, folds⟩ := Option.ite_none_right_eq_some.mp applies
    -- The target is an integer type that holds the integer, and the result is the constant.
    have toConstant : dtype.isInteger = true → dtype.fits number = true →
        (ofInt dtype number).eval env = some value := by
      intro isInteger holds
      rw [ofInt_of_scalar target.scalar isInteger, ← converts,
        Scalar.cast?_of_fits target.valid.1 isInteger isInt holds]
      rfl
    unfold convert? at folds
    split at folds
    next source number' =>
      cases isX
      cases isInt
      split at folds
      next isBool =>
        rw [Scalar.cast?_of_isBool isBool rfl] at converts
        cases folds
        exact converts
      next notBool =>
        rw [if_neg (by simp [target.notFloat])] at folds
        obtain ⟨holds, equal⟩ := Option.ite_none_right_eq_some.mp folds
        cases equal
        exact toConstant (DataType.isInteger_of_other target.notFloat (by simpa using notBool)) holds
    next source number' =>
      cases isX
      cases isInt
    next source truth =>
      cases isX
      cases isInt
      split at folds
      next => cases folds
      next notBool =>
        cases folds
        have isInteger : dtype.isInteger = true :=
          DataType.isInteger_of_other target.notFloat (by simpa using notBool)
        refine toConstant isInteger ?_
        by_contra tooLarge
        cases truth with
        | false => exact tooLarge (DataType.fits_zero target.notFloat)
        | true =>
          obtain rfl := target.eq_of_not_fits_one (by simpa using tooLarge)
          exact exact (.oneBit source)
    next => cases folds
  | _ => cases applies

theorem eval_removeCast? (isType : expr.dtype.Discrete)
    (operands : ∀ operand ∈ expr.converted, Representable env operand)
    (applies : removeCast? expr = some result) (evaluated : expr.eval env = some value)
    (exact : ¬Inexact env expr result) : result.eval env = some value := by
  cases expr with
  | cast dtype operand =>
    have target : dtype.Discrete := isType
    obtain ⟨x, number, isX, ofKind, isInt, fits, converts⟩ :=
      (operands operand List.mem_cons_self).eval_cast target evaluated
    obtain ⟨same, equal⟩ := Option.ite_none_right_eq_some.mp applies
    cases equal
    rw [same] at fits ofKind
    cases x with
    | int number' =>
      cases isInt
      have isInteger : dtype.isInteger = true := by
        refine DataType.isInteger_of_other target.notFloat ?_
        by_contra isBool
        exact exact (.truth (by simpa using isBool) isX)
      rw [Scalar.cast?_of_fits target.valid.1 isInteger rfl fits] at converts
      exact isX.trans converts
    | bool truth =>
      rw [Scalar.cast?_of_isBool ofKind isInt] at converts
      cases isInt
      rw [isX, ← converts]
      cases truth <;> rfl
    | float _ | vector _ => cases isInt
  | _ => cases applies

theorem eval_collapseCast? (truthful : ∀ question, answers.TrueIn .checked env question)
    (isType : expr.dtype.Discrete)
    (operands : ∀ operand ∈ expr.converted, Representable env operand)
    (applies : collapseCast? answers.evidence expr = some result)
    (evaluated : expr.eval env = some value) : result.eval env = some value := by
  unfold collapseCast? at applies
  split at applies
  next outer middle x =>
    have target : outer.Discrete := isType
    simp [Option.guard_eq_some', Option.bind_eq_some_iff] at applies
    obtain ⟨⟨⟨outerInteger, middleInteger⟩, innerInteger⟩, isNarrow, rfl⟩ := applies
    have inner : Representable env x := operands x (by simp [converted, innerInteger])
    have between : Representable env (cast middle x) := operands _ List.mem_cons_self
    obtain ⟨y, number, isY, -, -, -, outerConverts⟩ := between.eval_cast target evaluated
    obtain ⟨z, number', isZ, ofKind, isInt, fits, innerConverts⟩ :=
      inner.eval_cast between.discrete isY
    obtain ⟨number'', rfl⟩ := ofKind.exists_int innerInteger
    cases isInt
    have word := Bound.word_of_fits (DataType.isFloat_of_isInteger innerInteger) fits
    have member : (answers.evidence.bound x).contains number' = true := by
      refine truthful (.bound x) 0 number' (valueIn_eq_some.mpr ⟨_, isZ, .int number', ?_, rfl⟩)
      rw [Expr.lanes, inner.discrete.scalar]
      rfl
    have stays := Scalar.cast?_of_contains_ofType between.discrete.valid.1 middleInteger word
      (Bound.contains_of_fits isNarrow member) innerConverts
    subst stays
    split
    next same =>
      subst same
      rw [Scalar.cast?_of_fits target.valid.1 outerInteger rfl fits] at outerConverts
      exact isZ.trans outerConverts
    next =>
      have converts := evaluate_cast_scalar target.scalar isZ ofKind
      rw [DataType.element_of_lanes_eq_one target.scalar] at converts
      exact converts.trans outerConverts
  next => cases applies

/-- Where a conversion is not exact, what the rule makes of it has another value. -/
theorem Inexact.eval_ne (inexact : Inexact env expr result) (isType : expr.dtype.Discrete)
    (operands : ∀ operand ∈ expr.converted, Representable env operand)
    (evaluated : expr.eval env = some value) : result.eval env ≠ some value := by
  cases inexact with
  | oneBit source =>
    have wrapped : (cast (.scalar .int 1) (boolConst source true)).eval env = some (.int (-1)) := rfl
    cases wrapped.symm.trans evaluated
    simp [eval, evaluate]
  | truth isBool isInt =>
    obtain ⟨x, number, isX, -, -, -, converts⟩ :=
      (operands result List.mem_cons_self).eval_cast isType evaluated
    cases isX.symm.trans isInt
    have truth := converts.symm.trans (Scalar.cast?_of_isBool isBool rfl)
    rw [isX, truth]
    simp

/-! ### The rules -/

/-- The rules for conversions agree with conversions that wrap around. Between integer types of any
width and truth values, where the types can hold what is converted and the bound that is asked for
contains it, a rule keeps the value of a conversion if and only if it is exact: it does not fold `true`
to a signed integer of one bit, or put an integer in the place of its truth value. -/
theorem conversionRules_exact_iff {rule : Rule} {asked : Question → Prop} (member : rule ∈ rules)
    (isType : expr.dtype.Discrete)
    (operands : ∀ operand ∈ expr.converted, Representable env operand)
    (told : ∀ question, asked question → answers.TrueTo env question)
    (rewrites : rule.RewritesAsking asked answers expr result)
    (evaluated : expr.eval env = some value) :
    result.eval env = some value ↔ ¬Inexact env expr result := by
  refine ⟨fun kept inexact => inexact.eval_ne isType operands evaluated kept, fun exact => ?_⟩
  obtain ⟨other, truthful, rewrites⟩ := rewrites.exists_trueIn told
  simp only [rules, Rule.pure, List.mem_cons, List.not_mem_nil, or_false] at member
  rcases member with rfl | rfl | rfl
  · exact eval_foldCast? isType operands rewrites evaluated exact
  · exact eval_removeCast? isType operands rewrites evaluated exact
  · exact eval_collapseCast? truthful isType operands rewrites evaluated

/-- A conversion in between is skipped where the bound fits the type in the middle. -/
theorem conversionRules_exact_iff_skipped :
    let x : Variable := ⟨"x", .scalar .uint 8, false⟩
    let expr := cast .int32 (cast (.scalar .int 16) x.expr)
    let env := Environment.empty.set x (.int 200)
    (cast .int32 x.expr).eval env = some (.int 200) ∧ expr.eval env = some (.int 200) := by
  intro x expr env
  let asked : Question → Prop := fun question => question = .bound x.expr
  let answers : Answers := ⟨⟨fun _ => .ofInts 0 255, fun _ => .everything, fun _ => none, []⟩,
    fun _ _ => .unknown⟩
  have rewrites : (Rule.plain .collapseCast collapseCast?).RewritesAsking asked answers expr
      (cast .int32 x.expr) := by
    intro other same
    have isBound : other.evidence.bound x.expr = .ofInts 0 255 := same (.bound x.expr) rfl
    show collapseCast? other.evidence expr = some (cast .int32 x.expr)
    simp only [expr, collapseCast?, isBound]
    rfl
  have operands : ∀ operand ∈ expr.converted, Representable env operand := by
    intro operand isOperand
    rcases List.mem_cons.mp isOperand with rfl | isInner
    · exact ⟨by decide, fun value evaluated => Option.some.inj evaluated ▸ ⟨rfl, 200, rfl, rfl⟩⟩
    · rw [List.mem_singleton.mp isInner]
      exact ⟨by decide, fun value evaluated => Option.some.inj evaluated ▸ ⟨rfl, 200, rfl, rfl⟩⟩
  refine ⟨(conversionRules_exact_iff (by simp [rules]) (by decide) operands ?_ rewrites rfl).mpr ?_, rfl⟩
  · rintro question rfl index number isNumber
    rw [valueIn_of_evaluate_int (rfl : x.expr.eval env = some (.int 200)) isNumber]
    rfl
  · intro inexact
    dsimp only [expr] at inexact
    cases inexact

/-- `true` as a signed integer of one bit is minus one, but it is folded to one. -/
theorem not_conversionRules_exact :
    let expr := cast (.scalar .int 1) (boolConst .bool true)
    let env := Environment.empty
    ¬∀ (answers : Answers), ∀ rule ∈ rules, ∀ result : Expr, ∀ value : Value,
      (∀ operand ∈ expr.converted, Representable env operand) → rule.Rewrites answers expr result →
        expr.eval env = some value → result.eval env = some value := by
  intro expr env keeps
  let answers : Answers := ⟨⟨fun _ => .everything, fun _ => .everything, fun _ => none, []⟩,
    fun _ _ => .unknown⟩
  have rewrites : foldCast? expr = some (intConst (.scalar .int 1) 1) := by decide +kernel
  have operands : ∀ operand ∈ expr.converted, Representable env operand := by
    intro operand isOperand
    rw [List.mem_singleton.mp isOperand]
    exact ⟨by decide, fun value evaluated => Option.some.inj evaluated ▸ ⟨rfl, 1, rfl, rfl⟩⟩
  have kept := keeps answers (.pure .foldCast foldCast?) (by simp [rules]) _ (.int (-1)) operands
    rewrites rfl
  cases kept

/-! ### Lane by lane -/

variable {check : RangeCheck} [check.Lawful] {index : Nat} {number : Int}

omit [check.Lawful] in
/-- The lane of a conversion is what the lane of its operand converts to. -/
theorem exists_cast?_of_valueIn (typed : (cast dtype operand).WellTyped) (kinded : env.Kinded)
    (isNumber : (cast dtype operand).valueIn check env index = some number) :
    ∃ value lane converted, operand.evaluate check env = some value ∧
      (value.toLanes operand.lanes)[index]? = some lane ∧
      Scalar.cast? check dtype.element lane = some converted ∧ converted.asInt? = some number := by
  obtain ⟨_, evaluated, converted, isConverted, isInt⟩ := valueIn_eq_some.mp isNumber
  have isKinded : _ := evaluate_kinded typed kinded evaluated
  obtain ⟨value, lanes, isValue, equal, rfl⟩ := evaluate_cast_eq_some.mp evaluated
  rw [WellTyped] at typed
  obtain ⟨operandTyped, -, same⟩ := typed
  have length : lanes.length = dtype.lanes := by
    rw [← (forall₂_of_mapM equal).length_eq]
    exact ((evaluate_kinded operandTyped kinded isValue).toLanes _ (.inl same.symm)).1
  rw [Expr.lanes, isKinded.toLanes_ofLanes length, getElem?_of_mapM equal] at isConverted
  obtain ⟨lane, isLane, converts⟩ := Option.bind_eq_some_iff.mp isConverted
  exact ⟨value, lane, converted, isValue, by rwa [← same], converts, isInt⟩

/-- A lane of a type converts to itself. -/
theorem cast?_of_inLane {lane : Value} (valid : dtype.Valid) (notFloat : dtype.isFloat = false)
    (inLane : lane.InLane dtype) : Scalar.cast? check dtype.element lane = some lane := by
  cases lane with
  | int number =>
    have isSame : Scalar.cast? .checked dtype.element (.int number) = some (.int number) :=
      Scalar.cast?_of_fits valid.1 inLane.1 rfl inLane.2
    exact Scalar.cast?_mono RangeCheck.Lawful.weaker isSame
  | bool truth => exact if_pos inLane
  | float number => cases notFloat.symm.trans inLane
  | vector lanes => exact inLane.elim

omit [check.Lawful] in
/-- The lanes of a value of a type are lanes of the type. -/
theorem inLane_of_hasType {value lane : Value} (hasType : value.HasType dtype)
    (isLane : (value.toLanes dtype.lanes)[index]? = some lane) : lane.InLane dtype :=
  Value.inLaneUpTo_false.mp (((Value.hasTypeUpTo_false.mpr hasType).toLanes dtype.lanes (.inl rfl)).2
    lane (List.mem_of_getElem? isLane))

/-- What the expression converts has values of its types. -/
def Held (check : RangeCheck) (env : Environment) (expr : Expr) : Prop :=
  ∀ operand ∈ expr.converted, ∀ value : Value, operand.evaluate check env = some value →
    value.HasType operand.dtype

theorem sameIn_removeCast? (alike : Alike env expr result) (held : Held check env expr)
    (applies : removeCast? expr = some result) : SameIn check env expr result := by
  cases expr with
  | cast dtype operand =>
    obtain ⟨rfl, equal⟩ := Option.ite_none_right_eq_some.mp applies
    cases equal
    refine alike.sameIn fun {index first second} isFirst isSecond => ?_
    obtain ⟨value, lane, converted, isValue, isLane, converts, isInt⟩ :=
      exists_cast?_of_valueIn alike.regular.typed alike.truthful.kinded isFirst
    have inLane := inLane_of_hasType (held _ List.mem_cons_self value isValue) isLane
    rw [cast?_of_inLane alike.resultRegular.typed.valid alike.resultRegular.notFloat inLane] at converts
    cases converts
    exact Option.some.inj
      ((valueIn_eq_some.mpr ⟨value, isValue, lane, isLane, isInt⟩).symm.trans isSecond)
  | _ => cases applies

theorem sameIn_foldCast? (alike : Alike env expr result)
    (applies : foldCast? expr = some result) : SameIn check env expr result := by
  cases expr with
  | cast dtype operand =>
    obtain ⟨scalar, folds⟩ := Option.ite_none_right_eq_some.mp applies
    have single := lanes_eq_one_of_isScalar scalar
    have notFloat : dtype.isFloat = false := alike.regular.notFloat
    have typed := alike.regular.typed
    rw [WellTyped] at typed
    obtain ⟨-, valid, -⟩ := typed
    refine alike.sameIn fun {index first second} isFirst isSecond => ?_
    obtain ⟨value, lane, converted, isValue, isLane, converts, isInt⟩ :=
      exists_cast?_of_valueIn alike.regular.typed alike.truthful.kinded isFirst
    -- The target is an integer type that holds the integer, and the result is the constant.
    have toConstant {number : Int} (isInteger : dtype.isInteger = true) (fits : dtype.fits number = true)
        (isNumber : lane.asInt? = some number) (isConst : result = ofInt dtype number) :
        first = second := by
      have isSame : Scalar.cast? .checked dtype.element lane = some (.int number) :=
        Scalar.cast?_of_fits valid.1 isInteger isNumber fits
      rw [Scalar.cast?_mono RangeCheck.Lawful.weaker isSame] at converts
      cases converts
      cases isInt
      subst isConst
      rw [ofInt_of_scalar single isInteger] at isSecond
      exact (valueIn_intConst isSecond).symm
    unfold convert? at folds
    split at folds
    next source number =>
      cases isValue
      obtain rfl := List.eq_of_mem_replicate (List.mem_of_getElem? isLane)
      split at folds
      next isBool =>
        cases folds
        have isTruth : dtype.element.isBool = true := isBool
        rw [Scalar.cast?_of_isBool isTruth rfl] at converts
        cases converts
        cases isInt
        exact (valueIn_boolConst isSecond).symm
      next notBool =>
        rw [if_neg (by simp [notFloat])] at folds
        obtain ⟨fits, equal⟩ := Option.ite_none_right_eq_some.mp folds
        exact toConstant (DataType.isInteger_of_other notFloat (by simpa using notBool)) fits rfl
          (Option.some.inj equal).symm
    next source number =>
      have isOperand : (floatConst source number).Regular := alike.regular.child (by simp [children])
      have operandTyped := isOperand.typed
      rw [WellTyped] at operandTyped
      cases operandTyped.2.1.symm.trans isOperand.notFloat
    next source truth =>
      cases isValue
      obtain rfl := List.eq_of_mem_replicate (List.mem_of_getElem? isLane)
      split at folds
      next => cases folds
      next notBool =>
        cases folds
        have isInteger := DataType.isInteger_of_other notFloat (by simpa using notBool)
        exact toConstant isInteger (fits_of_wellTyped_ofInt isInteger alike.resultRegular.typed) rfl rfl
    next => cases folds
  | _ => cases applies

theorem sameIn_collapseCast? {evidence : Evidence} (alike : Alike env expr result)
    (held : Held check env expr) (reliable : evidence.Reliable check env)
    (applies : collapseCast? evidence expr = some result) : SameIn check env expr result := by
  unfold collapseCast? at applies
  split at applies
  next outer middle x =>
    simp [Option.guard_eq_some', Option.bind_eq_some_iff] at applies
    obtain ⟨⟨⟨outerInteger, middleInteger⟩, innerInteger⟩, isNarrow, equal⟩ := applies
    have isMiddle : (cast middle x).Regular := alike.regular.child (by simp [children])
    have middleTyped := isMiddle.typed
    rw [WellTyped] at middleTyped
    refine alike.sameIn fun {index first second} isFirst isSecond => ?_
    obtain ⟨between, lane, converted, isBetween, isLane, converts, isInt⟩ :=
      exists_cast?_of_valueIn alike.regular.typed alike.truthful.kinded isFirst
    obtain ⟨number, rfl⟩ := (((evaluate_kinded isMiddle.typed alike.truthful.kinded isBetween).toLanes _
      (.inl rfl)).2 lane (List.mem_of_getElem? isLane)).exists_int middleInteger
    obtain ⟨value, inner, stays, isValue, isInner, innerConverts, isNumber⟩ :=
      exists_cast?_of_valueIn isMiddle.typed alike.truthful.kinded
        (valueIn_eq_some.mpr ⟨between, isBetween, _, isLane, rfl⟩)
    have isConverted : x ∈ (cast outer (cast middle x)).converted := by
      simp [Expr.converted, innerInteger]
    have inLane := inLane_of_hasType (held x isConverted value isValue) isInner
    obtain ⟨number', rfl⟩ :=
      (((evaluate_kinded middleTyped.1 alike.truthful.kinded isValue).toLanes _ (.inl rfl)).2 inner
        (List.mem_of_getElem? isInner)).exists_int innerInteger
    -- The type in the middle holds the integer, which is the same in both operands.
    have isX : x.valueIn check env index = some number' :=
      valueIn_eq_some.mpr ⟨value, isValue, _, isInner, rfl⟩
    have word := Bound.word_of_fits (DataType.isFloat_of_isInteger innerInteger) inLane.2
    have member : (Bound.ofType middle.element).contains number' = true :=
      Bound.contains_of_fits isNarrow (reliable.bound x index number' isX)
    have someBits : 1 ≤ middle.element.bits := middleTyped.2.1.1
    cases Scalar.cast?_of_contains_ofType someBits middleInteger word member innerConverts
    cases isNumber
    split at equal
    next same =>
      subst same equal
      rw [cast?_of_inLane middleTyped.1.valid (DataType.isFloat_of_isInteger innerInteger) inLane]
        at converts
      cases converts
      exact Option.some.inj (isInt.symm.trans (isX.symm.trans isSecond))
    next =>
      subst equal
      obtain ⟨value', lane', converted', isValue', isLane', converts', isInt'⟩ :=
        exists_cast?_of_valueIn alike.resultRegular.typed alike.truthful.kinded isSecond
      cases isValue.symm.trans isValue'
      cases isInner.symm.trans isLane'
      cases converts.symm.trans converts'
      exact Option.some.inj (isInt.symm.trans isInt')
  next => cases applies

/-- What a rule makes of a conversion has its value, if what is converted has values of its types. -/
theorem sameIn_of_rewrites {rule : Rule} (member : rule ∈ rules) (alike : Alike env expr result)
    (held : Held check env expr) (reliable : answers.evidence.Reliable check env)
    (rewrites : rule.Rewrites answers expr result) : SameIn check env expr result := by
  simp only [rules, Rule.pure, List.mem_cons, List.not_mem_nil, or_false] at member
  rcases member with rfl | rfl | rfl
  · exact sameIn_foldCast? alike rewrites
  · exact sameIn_removeCast? alike held rewrites
  · exact sameIn_collapseCast? alike held reliable rewrites

end Reduction.Conversions

end IndexAlgebra
