/-
This file proves that the facts which are read from a condition follow from it, and that the condition
being known makes other conditions only what they are. Where the condition is true, so are its parts.
A part that compares an integer with a constant restricts it to the range that is read, as far as an
integer lies strictly between the ends that stand for the infinities. A part that states a remainder
gives the class of the dividend, since a dividend differs from its remainder by a multiple of the
divisor, whatever the signs. The negation of a true condition is false, also of a comparison of
floating-point numbers, which is negated as a whole.
-/
import IndexAlgebra.Analyzer.Constraints
import IndexAlgebra.Proofs.Exact.Conditions
import IndexAlgebra.Proofs.FullRules

namespace IndexAlgebra

/-- What the fact says is so: the expression is an integer of the bound, if the integer lies strictly
between the ends that stand for the infinities, or an integer of the class, or it is true. -/
def Fact.Holds (env : Environment) : Fact → Prop
  | .bound target range => ∃ number, target.eval env = some (.int number) ∧
      (Word.Inside number → range.contains number = true)
  | .congruence target residues => ∃ number, target.eval env = some (.int number) ∧
      residues.contains number = true
  | .truth cond => cond.eval env = some (.bool true)

/-! ### Operators on scalars -/

namespace Scalar

variable {check : RangeCheck} {dtype : DataType} {op : BinaryOp} {left right value : Value}
  {first second : Int}

/-- An operator is defined on two scalars of one kind. -/
theorem cases_of_binary? (made : binary? check dtype op left right = some value) :
    (∃ first second, left = .int first ∧ right = .int second) ∨
      (∃ first second, left = .bool first ∧ right = .bool second) ∨
      ∃ first second, left = .float first ∧ right = .float second := by
  cases left <;> cases right <;> first | contradiction | simp

theorem eq_int_of_binary?_int (made : binary? check dtype op left (.int second) = some value) :
    ∃ first, left = .int first := by
  rcases cases_of_binary? made with ⟨first, _, isFirst, -⟩ | ⟨_, _, -, isSecond⟩ | ⟨_, _, -, isSecond⟩
  · exact ⟨first, isFirst⟩
  · cases isSecond
  · cases isSecond

theorem eq_int_of_int_binary? (made : binary? check dtype op (.int first) right = some value) :
    ∃ second, right = .int second := by
  rcases cases_of_binary? made with ⟨_, second, -, isSecond⟩ | ⟨_, _, isFirst, -⟩ | ⟨_, _, isFirst, -⟩
  · exact ⟨second, isSecond⟩
  · cases isFirst
  · cases isFirst

theorem true_of_and (made : binary? check dtype .and left right = some (.bool true)) :
    left = .bool true ∧ right = .bool true := by
  rcases cases_of_binary? made with ⟨_, _, rfl, rfl⟩ | ⟨_, _, rfl, rfl⟩ | ⟨_, _, rfl, rfl⟩
  · cases made
  · simpa [binary?] using made
  · cases made

/-- The outcome of a comparison does not depend on a type. -/
theorem binary?_of_isComparison (isComparison : op.isComparison = true) (dtype dtype' : DataType)
    (left right : Value) : binary? check dtype op left right = binary? check dtype' op left right := by
  cases op <;> cases isComparison <;> cases left <;> cases right <;> rfl

/-- A comparison is the turned one of the operands in the other order. -/
theorem binary?_flip {flipped : BinaryOp} (flips : op.flip? = some flipped) (left right : Value) :
    binary? check dtype flipped right left = binary? check dtype op left right := by
  cases op <;> cases flips <;> cases left <;> cases right <;>
    simp [binary?, binaryInt?, binaryFloat?, Binary64.eq, Binary64.holds, eq_comm, bne_comm,
      Bool.and_comm]

/-- Where a comparison holds of two scalars, its negation fails. Of floating-point numbers the
converse need not be so, since both fail of what is not a number. -/
theorem binary?_negate {negated : BinaryOp} (dtype' : DataType) (negates : op.negate? = some negated)
    (holds : binary? check dtype op left right = some (.bool true)) :
    binary? check dtype' negated left right = some (.bool false) := by
  rcases cases_of_binary? holds with ⟨_, _, rfl, rfl⟩ | ⟨_, _, rfl, rfl⟩ | ⟨_, _, rfl, rfl⟩ <;>
    cases op <;> cases negates <;>
    simp_all [binary?, binaryInt?, binaryFloat?, Binary64.lt, Binary64.le, Binary64.holds]

/-- A dividend differs from its remainder by a multiple of the divisor. -/
theorem dvd_sub_of_remainder {remainder : Int} (isRemainder : op = .truncMod ∨ op = .floorMod)
    (made : binary? .checked dtype op (.int first) (.int second) = some (.int remainder)) :
    second ∣ first - remainder := by
  rcases isRemainder with rfl | rfl
  all_goals
    obtain ⟨-, isChecked⟩ := Option.ite_none_left_eq_some.mp made
    obtain ⟨number, passes, equal⟩ := Option.map_eq_some_iff.mp isChecked
    cases equal
    obtain ⟨-, -, rfl⟩ := RangeCheck.checked_eq_some.mp passes
  · exact Int.dvd_self_sub_tmod
  · exact Int.dvd_self_sub_fmod

/-- An integer of which a comparison with a constant holds is in the range of the comparison. -/
theorem contains_of_rangeTo? {range : Bound} (found : Reduction.Conditions.rangeTo? op second = some range)
    (holds : binary? check dtype op (.int first) (.int second) = some (.bool true))
    (inside : Word.Inside first) :
    range.contains first = true := by
  cases op <;> cases found <;> simp only [binary?, binaryInt?, Option.some.injEq,
    Value.bool.injEq, decide_eq_true_eq] at holds
  case eq =>
    subst holds
    exact Bound.contains_point inside
  all_goals
    rw [Bound.contains_iff]
    simp only [Limit.negInf_le, Limit.le_posInf, true_and, and_true, Bound.finite_le_ofInt inside,
      Bound.ofInt_le_finite inside]
    omega

end Scalar

namespace Expr

/-! ### Lanes of operands -/

variable {env : Environment} {dtype : DataType} {op : BinaryOp}
  {expr built cond part retyped target lhs rhs : Expr} {lane left right : Value}

/-- The scalar is a lane of the value of the expression, or the value itself. -/
def HasLane (env : Environment) (expr : Expr) (lane : Value) : Prop :=
  ∃ value count, expr.eval env = some value ∧ lane ∈ value.toLanes count

/-- The only lane of a scalar is the scalar. -/
theorem HasLane.eval_eq (hasLane : HasLane env expr lane)
    (scalar : ∀ value, expr.eval env = some value → value.IsLane) : expr.eval env = some lane := by
  obtain ⟨value, count, isValue, member⟩ := hasLane
  rw [(scalar value isValue).toLanes, List.mem_replicate] at member
  rw [isValue, member.2]

/-- A scalar that an operator makes is made of a lane of each operand. -/
theorem exists_hasLane_of_binary {made : Value} (isLane : made.IsLane)
    (evaluated : (binary dtype op lhs rhs).eval env = some made) :
    ∃ left right, HasLane env lhs left ∧ HasLane env rhs right ∧
      Scalar.binary? .checked lhs.dtype.element op left right = some made := by
  obtain ⟨first, second, lanes, isFirst, isSecond, equal, made⟩ := evaluate_binary_eq_some.mp evaluated
  rw [isLane.eq_singleton made, mapM_eq_some_iff_map, List.map_singleton,
    List.map_eq_singleton_iff] at equal
  obtain ⟨⟨left, right⟩, only, computes⟩ := equal
  have member := List.of_mem_zip (only ▸ List.mem_singleton_self (left, right))
  exact ⟨left, right, ⟨first, _, isFirst, member.1⟩, ⟨second, _, isSecond, member.2⟩, computes⟩

/-- A scalar that an operator makes of operands of scalar types is made of their values. -/
theorem exists_eval_of_binary {type : DataType} {made : Value}
    (typed : (binary dtype op lhs rhs).HasType type) (full : (binary dtype op lhs rhs).Full)
    (laned : env.Laned) (scalar : type.lanes = 1)
    (evaluated : (binary dtype op lhs rhs).eval env = some made) :
    ∃ left right, lhs.eval env = some left ∧ rhs.eval env = some right ∧
      Scalar.binary? .checked lhs.dtype.element op left right = some made := by
  obtain ⟨operand, isLeft, isRight, -, -, isType⟩ := hasType_binary.mp typed
  obtain ⟨leftFull, rightFull⟩ := full_binary.mp full
  have single : operand.lanes = 1 := by rw [← scalar, isType, lanes_binaryType]
  have isLane : made.IsLane := isLane_of_evaluate typed.coherent full laned
    ((congrArg DataType.lanes typed.isType).trans scalar) evaluated
  obtain ⟨left, right, ofLeft, ofRight, computes⟩ := exists_hasLane_of_binary isLane evaluated
  refine ⟨left, right, ofLeft.eval_eq fun _ => ?_, ofRight.eval_eq fun _ => ?_, computes⟩
  · exact isLane_of_evaluate isLeft.coherent leftFull laned
      ((congrArg DataType.lanes isLeft.isType).trans single)
  · exact isLane_of_evaluate isRight.coherent rightFull laned
      ((congrArg DataType.lanes isRight.isType).trans single)

/-! ### Parts of a condition -/

/-- What both sides of a conjunction inherit holds of every part of a condition. -/
theorem of_mem_conjuncts (holds : Expr → Prop)
    (sides : ∀ dtype lhs rhs, holds (binary dtype .and lhs rhs) → holds lhs ∧ holds rhs)
    {cond part : Expr} (whole : holds cond) (member : part ∈ cond.conjuncts) : holds part := by
  fun_induction conjuncts cond with
  | case1 dtype lhs rhs left right =>
    obtain ⟨first, second⟩ := sides dtype lhs rhs whole
    exact (List.mem_append.mp member).elim (left first) (right second)
  | case2 => exact List.mem_singleton.mp member ▸ whole
  | case3 => exact List.mem_singleton.mp member ▸ whole

theorem HasType.conjunct {cond part : Expr} (typed : cond.HasType .bool)
    (member : part ∈ cond.conjuncts) : part.HasType .bool := by
  have sides : ∀ dtype lhs rhs, (binary dtype .and lhs rhs).HasType .bool →
      lhs.HasType .bool ∧ rhs.HasType .bool := by
    intro dtype lhs rhs typed
    obtain ⟨operand, left, right, -, -, isType⟩ := hasType_binary.mp typed
    rw [isType]
    exact ⟨left, right⟩
  exact of_mem_conjuncts (·.HasType .bool) sides typed member

theorem postOrder_subset_of_mem_conjuncts {cond part : Expr} (member : part ∈ cond.conjuncts) :
    part.postOrder ⊆ cond.postOrder := by
  have sides : ∀ dtype lhs rhs, (binary dtype .and lhs rhs).postOrder ⊆ cond.postOrder →
      lhs.postOrder ⊆ cond.postOrder ∧ rhs.postOrder ⊆ cond.postOrder := by
    intro dtype lhs rhs inside
    rw [postOrder] at inside
    have operands := List.Subset.trans (List.subset_append_left _ _) inside
    exact ⟨List.Subset.trans (List.subset_append_left _ _) operands,
      List.Subset.trans (List.subset_append_right _ _) operands⟩
  exact of_mem_conjuncts (·.postOrder ⊆ cond.postOrder) sides (List.Subset.refl _) member

/-! ### Parts of a true condition -/

/-- The expression is a scalar condition, and it is true. -/
structure IsTrue (env : Environment) (cond : Expr) : Prop where
  typed : cond.HasType .bool
  full : cond.Full
  isTrue : cond.eval env = some (.bool true)

theorem IsTrue.exists_operands (laned : env.Laned) (isTrue : IsTrue env (binary dtype op lhs rhs)) :
    ∃ left right, lhs.eval env = some left ∧ rhs.eval env = some right ∧
      Scalar.binary? .checked lhs.dtype.element op left right = some (.bool true) :=
  exists_eval_of_binary isTrue.typed isTrue.full laned rfl isTrue.isTrue

/-- Every part of a true condition is true. -/
theorem IsTrue.conjunct (laned : env.Laned) (isTrue : IsTrue env cond) (member : part ∈ cond.conjuncts) :
    IsTrue env part := by
  refine of_mem_conjuncts (IsTrue env) (fun dtype lhs rhs isTrue => ?_) isTrue member
  obtain ⟨left, right, isLeft, isRight, both⟩ := isTrue.exists_operands laned
  obtain ⟨rfl, rfl⟩ := Scalar.true_of_and both
  obtain ⟨leftFull, rightFull⟩ := full_binary.mp isTrue.full
  obtain ⟨operand, leftTyped, rightTyped, -, -, isType⟩ := hasType_binary.mp isTrue.typed
  cases (isType : DataType.bool = operand)
  exact ⟨⟨leftTyped, leftFull, isLeft⟩, ⟨rightTyped, rightFull, isRight⟩⟩

/-- An integer that a true condition restricts to a range is in the range. -/
theorem IsTrue.holds_bound {range : Bound} (laned : env.Laned) (isTrue : IsTrue env cond)
    (isRange : Reduction.Conditions.asRange? cond = some (target, range)) :
    (Fact.bound target range).Holds env := by
  obtain ⟨dtype, op, lhs, rhs, flipped, bound, rfl, -, -, -, -, isRangeTo, sides⟩ :=
    Reduction.Conditions.comparison_of_asRange? isRange
  obtain ⟨left, right, isLeft, isRight, holds⟩ := isTrue.exists_operands laned
  rcases sides with ⟨rfl, rfl, isConst⟩ | ⟨rfl, flips, isConst⟩
  · obtain ⟨constType, rfl⟩ := asInt?_eq_some.mp isConst
    cases isRight
    obtain ⟨number, rfl⟩ := Scalar.eq_int_of_binary?_int holds
    exact ⟨number, isLeft, Scalar.contains_of_rangeTo? isRangeTo holds⟩
  · obtain ⟨constType, rfl⟩ := asInt?_eq_some.mp isConst
    cases isLeft
    obtain ⟨number, rfl⟩ := Scalar.eq_int_of_int_binary? holds
    rw [← Scalar.binary?_flip flips] at holds
    exact ⟨number, isRight, Scalar.contains_of_rangeTo? isRangeTo holds⟩

/-- A condition that states a class is an equality of a remainder and a constant. -/
theorem remainder_of_asCongruence? {residues : Congruence}
    (isClass : cond.asCongruence? = some (target, residues)) :
    ∃ dtype lhs rhs inner op divisorType divisor remainder, cond = binary dtype .eq lhs rhs ∧
      (op = .truncMod ∨ op = .floorMod) ∧ residues = .ofInts divisor remainder ∧
      ((lhs = binary inner op target (intConst divisorType divisor) ∧ rhs.asInt? = some remainder) ∨
        rhs = binary inner op target (intConst divisorType divisor) ∧ lhs.asInt? = some remainder) := by
  obtain ⟨⟨lhs, rhs⟩, isEqual, applies⟩ := Option.bind_eq_some_iff.mp isClass
  obtain ⟨dtype, rfl⟩ := operands?_eq_some.mp isEqual
  dsimp only at applies
  split at applies
  case h_3 => cases applies
  -- the remainder stands on the side that is no constant, and is read in the same way on both
  all_goals
    rename_i isLeft isRight
    obtain ⟨_, chosen, applies⟩ := Option.bind_eq_some_iff.mp applies
    cases chosen
    obtain ⟨⟨op, dividend, constant⟩, isBinary, applies⟩ := Option.bind_eq_some_iff.mp applies
    obtain ⟨_, isRemainder, applies⟩ := Option.bind_eq_some_iff.mp applies
    obtain ⟨divisor, isConst, applies⟩ := Option.bind_eq_some_iff.mp applies
    obtain ⟨_, -, equal⟩ := Option.bind_eq_some_iff.mp applies
    cases equal
    obtain ⟨inner, rfl⟩ := asBinary?_eq_some.mp isBinary
    obtain ⟨divisorType, rfl⟩ := asInt?_eq_some.mp isConst
    rw [Option.guard_eq_some', Bool.or_eq_true, beq_iff_eq, beq_iff_eq] at isRemainder
    refine ⟨dtype, _, _, inner, op, divisorType, divisor, _, rfl, isRemainder, rfl, ?_⟩
  · exact .inl ⟨rfl, isRight⟩
  · exact .inr ⟨rfl, isLeft⟩

/-- An integer whose remainder a true condition states is in the class of the remainder. -/
theorem IsTrue.holds_congruence {residues : Congruence} (laned : env.Laned) (isTrue : IsTrue env cond)
    (isClass : cond.asCongruence? = some (target, residues)) :
    (Fact.congruence target residues).Holds env := by
  obtain ⟨dtype, lhs, rhs, inner, op, divisorType, divisor, remainder, rfl, isRemainder, rfl, sides⟩ :=
    remainder_of_asCongruence? isClass
  obtain ⟨operand, leftTyped, rightTyped, -, -, isType⟩ := hasType_binary.mp isTrue.typed
  have scalar : operand.lanes = 1 := (congrArg DataType.lanes isType).symm
  obtain ⟨leftFull, rightFull⟩ := full_binary.mp isTrue.full
  obtain ⟨left, right, isLeft, isRight, holds⟩ := isTrue.exists_operands laned
  have ofTerm : ∀ {term : Expr}, term = binary inner op target (intConst divisorType divisor) →
      term.HasType operand → term.Full → term.eval env = some (.int remainder) →
      (Fact.congruence target (.ofInts divisor remainder)).Holds env := by
    rintro _ rfl typed full isTerm
    obtain ⟨dividend, _, isDividend, isDivisor, makes⟩ :=
      exists_eval_of_binary typed full laned scalar isTerm
    cases isDivisor
    obtain ⟨number, rfl⟩ := Scalar.eq_int_of_binary?_int makes
    exact ⟨number, isDividend, Congruence.contains_ofInts (Scalar.dvd_sub_of_remainder isRemainder makes)⟩
  rcases sides with ⟨isTerm, isConst⟩ | ⟨isTerm, isConst⟩
  · obtain ⟨constType, rfl⟩ := asInt?_eq_some.mp isConst
    cases isRight
    obtain ⟨number, rfl⟩ := Scalar.eq_int_of_binary?_int holds
    obtain rfl : number = remainder := by simpa [Scalar.binary?, Scalar.binaryInt?] using holds
    exact ofTerm isTerm leftTyped leftFull isLeft
  · obtain ⟨constType, rfl⟩ := asInt?_eq_some.mp isConst
    cases isLeft
    obtain ⟨number, rfl⟩ := Scalar.eq_int_of_int_binary? holds
    obtain rfl : remainder = number := by simpa [Scalar.binary?, Scalar.binaryInt?] using holds
    exact ofTerm isTerm rightTyped rightFull isRight

/-! ### The negation of a condition -/

/-- A scalar constant keeps its value in another type, but an integer becomes a floating-point number in
a floating-point type. -/
theorem eval_of_retypeScalar? (env : Environment) (scalar : dtype.lanes = 1)
    (retypes : retypeScalar? dtype expr = some retyped) :
    ∃ lane : Value, lane.IsLane ∧ expr.eval env = some lane ∧
      (retyped.eval env = some lane ∨ dtype.isFloat = true ∧ ∃ number, lane = .int number) := by
  have single : dtype.isVector = false := by simp [DataType.isVector, scalar]
  cases expr with
  | intConst type number =>
    refine ⟨.int number, Value.isLane_int number, rfl, ?_⟩
    obtain ⟨allowed, equal⟩ := Option.ite_none_right_eq_some.mp retypes
    cases equal
    by_cases isFloat : dtype.isFloat = true
    · exact .inr ⟨isFloat, number, rfl⟩
    · obtain ⟨isInteger, -⟩ : dtype.isInteger = true ∧ dtype.fits number = true := by
        simpa [isFloat] using allowed
      have notBool := DataType.isBool_of_isInteger isInteger
      exact .inl (by simp [ofInt, scalarOfInt, single, isFloat, notBool, eval, evaluate])
  | floatConst type number =>
    refine ⟨.float number, Value.isLane_float number, rfl, .inl ?_⟩
    obtain ⟨-, equal⟩ := Option.ite_none_right_eq_some.mp retypes
    cases equal
    simp [ofFloat, single, eval, evaluate]
  | _ => cases retypes

/-- A constant, broadcast or not, keeps its lanes in a scalar type, but integers become floating-point
numbers in a floating-point type. -/
theorem eval_of_retype? (scalar : dtype.lanes = 1) (retypes : retype? dtype expr = some retyped)
    (hasLane : HasLane env expr lane) :
    retyped.eval env = some lane ∨ dtype.isFloat = true ∧ ∃ number, lane = .int number := by
  have ofScalar : ∀ {constant : Expr}, retypeScalar? dtype constant = some retyped →
      (∀ found, constant.eval env = some found → found.IsLane → found = lane) →
      retyped.eval env = some lane ∨ dtype.isFloat = true ∧ ∃ number, lane = .int number := by
    intro constant retypes only
    obtain ⟨found, isLane, evaluated, keeps⟩ := eval_of_retypeScalar? env scalar retypes
    exact only found evaluated isLane ▸ keeps
  obtain ⟨value, count, isValue, member⟩ := hasLane
  unfold retype? at retypes
  split at retypes
  next type inner lanes =>
    refine ofScalar retypes fun found isFound isLane => ?_
    obtain ⟨operand, isOperand, rfl⟩ := evaluate_broadcast_eq_some.mp isValue
    cases isFound.symm.trans isOperand
    exact (List.eq_of_mem_replicate member).symm
  next =>
    refine ofScalar retypes fun found isFound isLane => ?_
    cases isFound.symm.trans isValue
    rw [isLane.toLanes] at member
    exact (List.eq_of_mem_replicate member).symm

/-- The only lane of an expression of a scalar type is its value, and it belongs to the type. -/
theorem HasLane.ofKind (hasLane : HasLane env expr lane) (typed : expr.WellTyped)
    (scalar : expr.lanes = 1) (kinded : env.Kinded) :
    expr.eval env = some lane ∧ lane.OfKind expr.dtype := by
  have ofKind : ∀ value, expr.eval env = some value → value.OfKind expr.dtype := fun value isValue =>
    (evaluate_kinded typed kinded isValue).ofKind scalar
  have isLane := hasLane.eval_eq fun value isValue => (ofKind value isValue).isLane
  exact ⟨isLane, ofKind lane isLane⟩

/-- Operands that are given one type keep their lanes, where one operator is defined on these. -/
theorem eval_unify {made : Value} (leftTyped : (unify lhs rhs).1.WellTyped)
    (rightTyped : (unify lhs rhs).2.WellTyped) (scalar : (unify lhs rhs).1.lanes = 1)
    (same : (unify lhs rhs).1.dtype = (unify lhs rhs).2.dtype) (kinded : env.Kinded)
    (ofLeft : HasLane env lhs left) (ofRight : HasLane env rhs right)
    (makes : Scalar.binary? .checked dtype op left right = some made) :
    (unify lhs rhs).1.eval env = some left ∧ (unify lhs rhs).2.eval env = some right := by
  have rightScalar : (unify lhs rhs).2.lanes = 1 := (congrArg DataType.lanes same).symm.trans scalar
  rcases unify_cases lhs rhs with unified | ⟨retyped, retypes, unified⟩ | ⟨retyped, retypes, unified⟩ <;>
    rw [unified] at leftTyped rightTyped scalar rightScalar ⊢
  · exact ⟨(ofLeft.ofKind leftTyped scalar kinded).1, (ofRight.ofKind rightTyped rightScalar kinded).1⟩
  -- an integer beside a floating-point number has no outcome, so no constant has changed its kind
  · obtain ⟨isLeft, ofKind⟩ := ofLeft.ofKind leftTyped scalar kinded
    rcases eval_of_retype? scalar retypes ofRight with isRight | ⟨isFloat, number, rfl⟩
    · exact ⟨isLeft, isRight⟩
    · obtain ⟨_, rfl⟩ := Scalar.eq_int_of_binary?_int makes
      exact absurd isFloat (Bool.eq_false_iff.mp ofKind)
  · obtain ⟨isRight, ofKind⟩ := ofRight.ofKind rightTyped rightScalar kinded
    rcases eval_of_retype? rightScalar retypes ofLeft with isLeft | ⟨isFloat, number, rfl⟩
    · exact ⟨isLeft, isRight⟩
    · obtain ⟨_, rfl⟩ := Scalar.eq_int_of_int_binary? makes
      exact absurd isFloat (Bool.eq_false_iff.mp ofKind)

/-- A scalar comparison that is built of two expressions compares their lanes, also where a constant
takes the type of the other operand. -/
theorem eval_of_binary? {made : Value} (builds : binary? op lhs rhs = some built)
    (typed : built.WellTyped) (scalar : built.lanes = 1) (kinded : env.Kinded)
    (isComparison : op.isComparison = true) (ofLeft : HasLane env lhs left)
    (ofRight : HasLane env rhs right)
    (makes : Scalar.binary? .checked dtype op left right = some made) : built.eval env = some made := by
  obtain ⟨same, rfl, -⟩ := binary?_unify builds
  rw [WellTyped] at typed
  obtain ⟨leftTyped, rightTyped, -⟩ := typed
  rw [Expr.lanes, Expr.dtype, lanes_binaryType] at scalar
  obtain ⟨isLeft, isRight⟩ := eval_unify leftTyped rightTyped scalar same kinded ofLeft ofRight makes
  have leftKind := (evaluate_kinded leftTyped kinded isLeft).ofKind scalar
  have rightKind := (evaluate_kinded rightTyped kinded isRight).ofKind (same ▸ scalar)
  rw [eval, evaluate_binary_scalar ((lanes_binaryType ..).trans scalar) isLeft isRight leftKind rightKind,
    Scalar.binary?_of_isComparison isComparison _ dtype, makes]

/-- The operand of a negation that is true is false. -/
theorem hasLane_of_not (isTrue : (Expr.not dtype cond).eval env = some (.bool true)) :
    HasLane env cond (.bool false) := by
  obtain ⟨operand, lanes, isOperand, negated, made⟩ := evaluate_not_eq_some.mp isTrue
  rw [(Value.isLane_bool true).eq_singleton made, mapM_eq_some_iff_map, List.map_singleton,
    List.map_eq_singleton_iff] at negated
  obtain ⟨lane, isLane, negated⟩ := negated
  obtain ⟨truth, isTruth, equal⟩ := Option.map_eq_some_iff.mp negated
  cases lane <;> cases isTruth
  obtain rfl : truth = false := by simpa using equal
  exact ⟨operand, _, isOperand, by rw [isLane]; exact List.mem_singleton_self _⟩

/-- The negation of a true condition is false. -/
theorem eval_of_negation? (negates : Reduction.Conditions.negation? cond = some built)
    (typed : built.WellTyped) (scalar : built.lanes = 1) (kinded : env.Kinded)
    (isTrue : cond.eval env = some (.bool true)) : built.eval env = some (.bool false) := by
  have ofNot : not? cond = some built → built.eval env = some (.bool false) := by
    intro builds
    obtain ⟨-, rfl⟩ := not?_eq_some builds
    rw [Expr.lanes, Expr.dtype] at scalar
    exact evaluate_not_eq_some.mpr ⟨.bool true, [.bool false], isTrue, by rw [scalar]; rfl, rfl⟩
  unfold Reduction.Conditions.negation? at negates
  split at negates
  next type value =>
    cases negates
    exact ((hasLane_of_not isTrue).ofKind typed scalar kinded).1
  next type op lhs rhs =>
    split at negates
    next => exact ofNot negates
    obtain ⟨left, right, ofLeft, ofRight, holds⟩ := exists_hasLane_of_binary (Value.isLane_bool true) isTrue
    split at negates
    -- `x < y` is negated as `y <= x`, which is `x >= y` with its sides turned
    case h_1 =>
      have fails := Scalar.binary?_negate type (rfl : BinaryOp.negate? .lt = some .ge) holds
      rw [← Scalar.binary?_flip (rfl : BinaryOp.flip? .ge = some .le)] at fails
      exact eval_of_binary? negates typed scalar kinded rfl ofRight ofLeft fails
    case h_2 =>
      have fails := Scalar.binary?_negate type (rfl : BinaryOp.negate? .le = some .gt) holds
      rw [← Scalar.binary?_flip (rfl : BinaryOp.flip? .gt = some .lt)] at fails
      exact eval_of_binary? negates typed scalar kinded rfl ofRight ofLeft fails
    case h_7 => exact ofNot negates
    all_goals
      exact eval_of_binary? negates typed scalar kinded rfl ofLeft ofRight
        (Scalar.binary?_negate type rfl holds)
  next => exact ofNot negates

end Expr

/-! ### Facts of a condition -/

variable {env : Environment} {cond : Expr}

/-- Every fact that a true condition states holds. -/
theorem Fact.holds_of_mem_ofConjunct {fact : Fact} (laned : env.Laned) (isTrue : Expr.IsTrue env cond)
    (member : fact ∈ Fact.ofConjunct cond) : fact.Holds env := by
  simp only [Fact.ofConjunct, List.mem_append, Option.mem_toList, Option.map_eq_some_iff] at member
  rcases member with (⟨⟨target, range⟩, isRange, rfl⟩ | ⟨⟨target, residues⟩, isClass, rfl⟩) | isTruth
  · exact isTrue.holds_bound laned isRange
  · exact isTrue.holds_congruence laned isClass
  · obtain ⟨-, equal⟩ := Option.ite_none_left_eq_some.mp isTruth
    cases equal
    exact isTrue.isTrue

/-- A condition that is true has the type of the truth values. -/
theorem Expr.WellTyped.isTrue (typed : cond.WellTyped) (kinded : env.Kinded)
    (isTrue : cond.eval env = some (.bool true)) : Expr.IsTrue env cond := by
  have isKinded := evaluate_kinded typed kinded isTrue
  obtain ⟨lanes, made, length, ofKind⟩ := isKinded
  obtain rfl := (Value.isLane_bool true).eq_singleton made.symm
  have isType := DataType.eq_bool typed.valid (ofKind _ (List.mem_singleton_self _)) length.symm
  exact ⟨isType ▸ typed.coherent.hasType, typed.full, isTrue⟩

/-- The value that a condition is given where others are known is its value, if the others are true. -/
theorem Reduction.eval_of_knownLiteral? {evidence : Evidence} {expr result : Expr} (typed : expr.WellTyped)
    (kinded : env.Kinded) (known : ∀ truth ∈ evidence.truths, truth.eval env = some (.bool true))
    (decides : Conditions.knownLiteral? evidence expr = some result) :
    ∃ truth, result = .ofBool truth ∧ expr.eval env = some (.bool truth) := by
  obtain ⟨_, scalar, decides⟩ := Option.bind_eq_some_iff.mp decides
  obtain ⟨truth, found, equal⟩ := Option.bind_eq_some_iff.mp decides
  cases equal
  refine ⟨truth, rfl, ?_⟩
  obtain ⟨cond, member, decides⟩ := List.exists_of_findSome?_eq_some found
  split at decides
  next same =>
    cases decides
    exact same ▸ known cond member
  split at decides
  next negates =>
    cases decides
    rw [Option.guard_eq_some', Bool.and_eq_true, Bool.and_eq_true] at scalar
    exact Expr.eval_of_negation? negates typed (Expr.lanes_eq_one_of_isScalar scalar.1.2) kinded
      (known cond member)
  next => cases decides

namespace Analyzer

/-- Facts that are read from a condition follow from it. Where the condition is true and simplification
keeps it so, every fact of it holds; and where what was known is true as well, the facts make another
condition only what it is. -/
theorem factsOf_implied (analyzer : Analyzer) (values : analyzer.ValuesLaned) (typed : cond.WellTyped)
    (kinded : env.Kinded) (satisfied : ∀ fact ∈ analyzer.known.facts, fact.Holds env)
    (isTrue : cond.eval env = some (.bool true))
    (keepsTruth : (analyzer.reduce cond).eval env = some (.bool true)) :
    (∀ fact ∈ analyzer.factsOf cond, fact.Holds env) ∧
      ∀ token expr result, expr.WellTyped →
        Reduction.Conditions.knownLiteral?
          (analyzer.known.enterScope token (analyzer.factsOf cond)).evidence expr = some result →
        ∃ truth, result = .ofBool truth ∧ expr.eval env = some (.bool truth) := by
  have written := typed.isTrue kinded isTrue
  obtain ⟨reducedTyped, reducedFull⟩ := values.reduce written.typed written.full
  have reduced : Expr.IsTrue env (analyzer.reduce cond) := ⟨reducedTyped, reducedFull, keepsTruth⟩
  have holds : ∀ fact ∈ analyzer.factsOf cond, fact.Holds env := by
    intro fact member
    obtain ⟨part, isPart, states⟩ := List.mem_flatMap.mp member
    rw [List.mem_eraseDups, List.mem_filter, List.mem_append] at isPart
    exact Fact.holds_of_mem_ofConjunct kinded.laned
      (isPart.1.elim (written.conjunct kinded.laned) (reduced.conjunct kinded.laned)) states
  refine ⟨holds, fun token expr result typed decides => ?_⟩
  refine Reduction.eval_of_knownLiteral? typed kinded (fun truth member => ?_) decides
  obtain ⟨fact, isFact, isTruth⟩ := List.mem_filterMap.mp member
  have ofFact : fact.Holds env := (List.mem_append.mp isFact).elim (satisfied fact) (holds fact)
  cases fact <;> cases isTruth
  exact ofFact

/-- Of `x < n && 3 == truncmod(y, -8) && !(f < g)` where `n` is 16 the facts bound `x` by 15 and give the
class of `y`. That `f < g` is false is known then. It is not known that `g <= f` is true, and it is not
where `f` is not a number. -/
theorem factsOf_implied_nan :
    let x : Variable := ⟨"x", .int32, false⟩
    let y : Variable := ⟨"y", .int32, false⟩
    let n : Variable := ⟨"n", .int32, false⟩
    let f : Variable := ⟨"f", .scalar .float 32, false⟩
    let g : Variable := ⟨"g", .scalar .float 32, false⟩
    let constant := Expr.intConst .int32
    let less := fun lhs rhs : Variable => Expr.binary .bool .lt lhs.expr rhs.expr
    let remainder := Expr.binary .int32 .truncMod y.expr (constant (-8))
    let cond := Expr.binary .bool .and
      (.binary .bool .and (less x n) (.binary .bool .eq (constant 3) remainder)) (.not .bool (less f g))
    let operations : List Operation :=
      [.bind n (.value (constant 16)) false, .enterScope (some (less x y))]
    let analyzer := ({} : Analyzer).afterAll operations
    let env := ((((Environment.empty.set n (.int 16)).set x (.int 5)).set y (.int 11)).set f
      (.float .nan)).set g (.float (.ofInt 1))
    let facts := analyzer.factsOf cond
    let scope := analyzer.known.enterScope 1 facts
    .bound x.expr ⟨.negInf, .finite 15⟩ ∈ facts ∧ .congruence y.expr ⟨8, 3⟩ ∈ facts ∧
      (∀ fact ∈ facts, fact.Holds env) ∧
      Reduction.Conditions.knownLiteral? scope.evidence (less f g) = some (.ofBool false) ∧
      (less f g).eval env = some (.bool false) ∧
      Reduction.Conditions.knownLiteral? scope.evidence (.binary .bool .le g.expr f.expr) = none ∧
      Expr.eval (.binary .bool .le g.expr f.expr) env = some (.bool false) := by
  intro x y n f g constant less remainder cond operations analyzer env facts scope
  have values : analyzer.ValuesLaned := by
    refine valuesLaned_afterAll {} operations ?_ ?_ <;> intro operation member <;>
      simp only [operations, List.mem_cons, List.not_mem_nil, or_false] at member <;>
      rcases member with rfl | rfl
    · rintro value drawn
      cases drawn
      exact (Expr.WellTyped.coherent (by decide)).hasType
    · trivial
    · rintro value drawn
      cases drawn
      decide
    · trivial
  have kinded : env.Kinded := by
    have empty : Environment.empty.Kinded := fun name value isValue => by cases isValue
    have ofFloat (number : Binary64) : Value.Kinded (.scalar .float 32) (.float number) :=
      ⟨[.float number], rfl, rfl, fun lane member => List.mem_singleton.mp member ▸ rfl⟩
    exact ((((empty.set (Value.kinded_int 16 rfl rfl)).set (Value.kinded_int 5 rfl rfl)).set
      (Value.kinded_int 11 rfl rfl)).set (ofFloat .nan)).set (ofFloat _)
  have ofTruth {expr : Expr} {truth : Bool} (isTruth : (expr.eval env).bind Value.asBool? = some truth) :
      expr.eval env = some (.bool truth) := by
    obtain ⟨value, isValue, isTruth⟩ := Option.bind_eq_some_iff.mp isTruth
    cases value <;> cases isTruth
    exact isValue
  have known : analyzer.known.facts = [.truth (less x y)] := by decide +kernel
  have satisfied : ∀ fact ∈ analyzer.known.facts, fact.Holds env := by
    intro fact member
    rw [known, List.mem_singleton] at member
    subst member
    exact ofTruth (by decide +kernel)
  have decided : Reduction.Conditions.knownLiteral? scope.evidence (less f g) = some (.ofBool false) := by
    decide +kernel
  obtain ⟨holds, isValue⟩ := factsOf_implied analyzer values (by decide : cond.WellTyped) kinded satisfied
    (ofTruth (by decide +kernel)) (ofTruth (by decide +kernel))
  obtain ⟨truth, equal, isFalse⟩ := isValue 1 (less f g) _ (by decide) decided
  cases equal
  exact ⟨by decide +kernel, by decide +kernel, holds, decided, isFalse, by decide +kernel,
    ofTruth (by decide +kernel)⟩

end Analyzer

end IndexAlgebra
