/-
This file proves that the rules that hold for every operator are exact on integers, and with them
all the rules for arithmetic. Constants are folded to what they evaluate to, and where they have no
value they are not folded. A quotient of equal operands is one, which a type of a single bit cannot
hold: the quotient has no value there.
-/
import IndexAlgebra.Proofs.Exact.Comparisons
import IndexAlgebra.Proofs.Exact.Extrema
import IndexAlgebra.Proofs.Exact.Sums
import IndexAlgebra.Reduction.Identities

namespace IndexAlgebra

namespace Expr

variable {check : RangeCheck} [check.Lawful] {env : Environment} {expr result lhs rhs : Expr}
  {op : BinaryOp} {dtype : DataType}
  {value : Int}

/-! ### Integer constants -/

/-- A constant is built exactly if it is in the range that results are checked against. -/
theorem eval_constant? (scalar : dtype.lanes = 1) (isInteger : dtype.isInteger = true) :
    (constant? dtype value).bind (·.eval env) =
      (RangeCheck.checked dtype.element value).map Value.int := by
  have element : dtype.element.element.fits value = dtype.fits value := rfl
  simp only [constant?, RangeCheck.checked, isInteger, true_and, element]
  split
  next => rw [ofInt_of_scalar scalar isInteger]; rfl
  next => rfl

/-! ### Nodes over integers -/

namespace OverIntegers

omit [check.Lawful] in
/-- No logical operator combines integers. -/
theorem not_isLogical (isOver : OverIntegers check env (binary dtype op lhs rhs)) :
    ¬op.isLogical = true := by
  intro isLogical
  have isInteger : lhs.dtype.isInteger = true := isOver.operands
  have typed := isOver.typed
  rw [WellTyped] at typed
  rw [DataType.isInteger_of_isBool (typed.2.2.2.2 isLogical)] at isInteger
  cases isInteger

omit [check.Lawful] in
theorem arithmetic_or_comparison (isOver : OverIntegers check env (binary dtype op lhs rhs)) :
    op.opClass = .arithmetic ∨ op.isComparison = true := by
  have notLogical := isOver.not_isLogical
  unfold BinaryOp.isLogical at notLogical
  unfold BinaryOp.isComparison
  cases isClass : op.opClass with
  | arithmetic => exact .inl rfl
  | comparison => exact .inr rfl
  | logical =>
    rw [isClass] at notLogical
    exact absurd rfl notLogical

omit [check.Lawful] in
theorem compares (isOver : OverIntegers check env (binary dtype op lhs rhs))
    (isComparison : op.isComparison = true) : Compares check env dtype op lhs rhs :=
  ⟨isOver.typed, isOver.kinded, isComparison, isOver.operands⟩

end OverIntegers

omit [check.Lawful] in
theorem Settles.sameIn (settles : Settles check env (binary dtype op lhs rhs) result)
    (compares : Compares check env dtype op lhs rhs) :
    SameIn check env (binary dtype op lhs rhs) result :=
  fun _ _ => settles.eq compares.typed compares.kinded
    (compares.typed.hasTruths compares.kinded compares.isComparison)

omit [check.Lawful] in
/-- The constant of an integer type is well typed only if the type can hold its value. -/
theorem fits_of_wellTyped_ofInt (isInteger : dtype.isInteger = true)
    (typed : (ofInt dtype value).WellTyped) : dtype.fits value = true := by
  have notFloat := DataType.isFloat_of_isInteger isInteger
  have notBool := DataType.isBool_of_isInteger isInteger
  unfold ofInt at typed
  split at typed
  · rw [WellTyped, scalarOfInt, if_neg (by simp [notFloat]), if_neg (by simp [notBool]), WellTyped]
      at typed
    exact typed.1.2.2.2
  · rw [scalarOfInt, if_neg (by simp [notFloat]), if_neg (by simp [notBool]), WellTyped] at typed
    exact typed.2.2.2

omit [check.Lawful] in
/-- A value of an integer type has an integer in its first lane. -/
theorem WellTyped.exists_valueIn_zero {found : Value} (typed : expr.WellTyped) (kinded : env.Kinded)
    (isInteger : expr.dtype.isInteger = true) (evaluated : expr.evaluate check env = some found) :
    ∃ number, expr.valueIn check env 0 = some number := by
  obtain ⟨count, ofKind⟩ :=
    (evaluate_kinded typed kinded evaluated).toLanes expr.lanes (.inl rfl)
  have inside : 0 < (found.toLanes expr.lanes).length := by
    rw [count]
    exact typed.valid.2.2.1
  obtain ⟨number, isLane⟩ := (ofKind _ (List.getElem_mem inside)).exists_int isInteger
  exact ⟨number, valueIn_eq_some.mpr ⟨found, evaluated, _, List.getElem?_eq_getElem inside,
    congrArg Value.asInt? isLane⟩⟩

end Expr

namespace Reduction.Identities

open IndexAlgebra.Expr

attribute [local simp] Option.bind_eq_some_iff Option.guard_eq_some'

variable {check : RangeCheck} [check.Lawful] {env : Environment} {answers : Answers}
  {expr result lhs rhs : Expr} {op : BinaryOp}
  {dtype leftType rightType : DataType} {left right : Int}

/-! ### Constants -/

/-- What two constants are folded to has the value that the operator gives them. -/
theorem eval_foldInts? (scalar : leftType.lanes = 1) (isInteger : leftType.isInteger = true) :
    (foldInts? leftType op left right).bind (·.eval env) =
      Scalar.binaryInt? .checked leftType.element op left right := by
  cases op with
  | add | sub | mul | min | max => exact eval_constant? scalar isInteger
  | truncDiv | truncMod | floorDiv | floorMod =>
    simp only [foldInts?, Scalar.binaryInt?]
    split
    · rfl
    · exact eval_constant? scalar isInteger
  | eq | ne | lt | le | gt | ge | and | or => rfl

theorem exists_eval_ofInt (env : Environment) (dtype : DataType) (value : Int) :
    ∃ found, (ofInt dtype value).eval env = some found := by
  unfold ofInt scalarOfInt
  split_ifs <;> exact ⟨_, rfl⟩

/-- What constants are folded to has a value. -/
theorem exists_eval_foldInts? (env : Environment)
    (folds : foldInts? leftType op left right = some result) :
    ∃ value, result.eval env = some value := by
  have ofConstant {value : Int} (builds : constant? leftType value = some result) :
      ∃ value, result.eval env = some value := by
    obtain ⟨-, equal⟩ := Option.ite_none_right_eq_some.mp builds
    cases equal
    exact exists_eval_ofInt env leftType value
  cases op with
  | add | sub | mul | min | max => exact ofConstant folds
  | truncDiv | truncMod | floorDiv | floorMod =>
    exact ofConstant (Option.ite_none_left_eq_some.mp folds).2
  | eq | ne | lt | le | gt | ge =>
    cases folds
    exact ⟨_, rfl⟩
  | and | or => cases folds

/-- Folding two integer constants gives their value, and nothing if they have none. -/
theorem eval_foldConstants? (env : Environment)
    (typed : (binary dtype op (intConst leftType left) (intConst rightType right)).WellTyped) :
    (foldConstants? (binary dtype op (intConst leftType left) (intConst rightType right))).bind
        (·.eval env) =
      (binary dtype op (intConst leftType left) (intConst rightType right)).eval env := by
  rw [WellTyped, WellTyped, WellTyped] at typed
  obtain ⟨⟨-, isInteger, scalar, -⟩, ⟨-, rightInteger, -⟩, -, rfl, -⟩ := typed
  have isLeft : evaluate .checked env (intConst leftType left) = some (.int left) := rfl
  have isRight : evaluate .checked env (intConst rightType right) = some (.int right) := rfl
  refine (eval_foldInts? scalar isInteger).trans ?_
  exact (evaluate_binary_scalar ((lanes_binaryType op leftType).trans scalar) isLeft isRight
    (DataType.isFloat_of_isInteger isInteger) (DataType.isFloat_of_isInteger rightInteger)).symm

/-- A constant of truth values has no integers, and a floating-point one neither. -/
theorem sameIn_foldConstants? (isOver : OverIntegers check env expr)
    (applies : foldConstants? expr = some result) : SameIn check env expr result := by
  have operands := isOver.operands
  have typed := isOver.typed
  unfold foldConstants? at applies
  split at applies
  next dtype op leftType left rightType right =>
    intro first second isFirst isSecond
    have folded := eval_foldConstants? env typed
    rw [foldConstants?, applies, Option.bind_some] at folded
    obtain ⟨value, isValue⟩ := exists_eval_foldInts? env applies
    -- Both have a value when integers are checked, so they have it under every other check.
    have weaker : Weaker .checked check := RangeCheck.Lawful.weaker
    have found := evaluate_mono weaker isValue
    have given := evaluate_mono weaker (folded.symm.trans isValue)
    exact Option.some.inj ((isFirst.symm.trans given).trans (found.symm.trans isSecond))
  next dtype op leftType left rightType right =>
    rw [WellTyped, WellTyped] at typed
    have notFloat : leftType.isFloat = false := DataType.isFloat_of_isInteger operands
    cases typed.1.2.1.symm.trans notFloat
  next dtype op leftType left rightType right =>
    rw [WellTyped, WellTyped] at typed
    rw [IntegerOperands, Expr.dtype, typed.1] at operands
    cases operands
  next dtype constType truth =>
    cases applies
    rw [WellTyped, WellTyped] at typed
    obtain ⟨rfl, rfl, -⟩ := typed
    intro first second isFirst isSecond
    exact Option.some.inj (isFirst.symm.trans isSecond)
  next => cases applies

/-! ### Order of the operands -/

theorem sameIn_constantToRight? (isOver : OverIntegers check env expr)
    (fits : hasConstantOnLeft expr = true) (applies : constantToRight? expr = some result) :
    SameIn check env expr result := by
  simp [constantToRight?] at applies
  obtain ⟨op, lhs, rhs, ⟨dtype, rfl⟩, builds⟩ := applies
  simp [hasConstantOnLeft, asBinary?] at fits
  obtain ⟨⟨commutes, -⟩, -⟩ := fits
  rcases isOver.arithmetic_or_comparison with arithmetic | isComparison
  · have combines := isOver.combines arithmetic
    refine combines.sameIn_binary? combines.parts.isSecond combines.parts.isFirst arithmetic
      builds fun {_ x y} isX isY => ?_
    exact ⟨y, isY, x, isX, BinaryOp.onLane_comm commutes x y⟩
  · have compares := isOver.compares isComparison
    refine (compares.settles_binary? isComparison compares.parts.isSecond compares.parts.isFirst
      builds fun {_ x y} isX isY => ?_).sameIn compares
    exact ⟨y, isY, x, isX, BinaryOp.onLane_comm commutes x y⟩

/-! ### Zero, one and equal operands -/

/-- `x + 0 = x`, `x - 0 = x` -/
theorem sameIn_addZero? (isOver : OverIntegers check env expr)
    (applies : addZero? expr = some result) : SameIn check env expr result := by
  simp [addZero?] at applies
  obtain ⟨op, ⟨constType, dtype, rfl⟩, isSum, -⟩ := applies
  have combines := isOver.combines (BinaryOp.arithmetic_of_isSum isSum)
  refine combines.sameIn_first fun {_ x y} isX isY => ?_
  rw [valueIn_intConst isY]
  rcases isSum with rfl | rfl
  · exact congrArg some (Int.add_zero x)
  · exact congrArg some (Int.sub_zero x)

theorem sameIn_subtractSelf? (isOver : OverIntegers check env expr)
    (applies : subtractSelf? expr = some result) : SameIn check env expr result := by
  simp [subtractSelf?] at applies
  obtain ⟨⟨term, dtype, rfl⟩, -, rfl⟩ := applies
  have combines := isOver.combines rfl
  have fits := DataType.fits_zero (DataType.isFloat_of_isInteger combines.isInteger)
  refine combines.sameIn_ofInt fits fun isX isY => ?_
  cases isX.symm.trans isY
  exact congrArg some (Int.sub_self _)

theorem sameIn_multiplyOne? (isOver : OverIntegers check env expr)
    (applies : multiplyOne? expr = some result) : SameIn check env expr result := by
  simp [multiplyOne?] at applies
  obtain ⟨op, ⟨constType, dtype, rfl⟩, isScale, -⟩ := applies
  have arithmetic : op.opClass = .arithmetic := by rcases isScale with (rfl | rfl) | rfl <;> rfl
  have combines := isOver.combines arithmetic
  refine combines.sameIn_first fun {_ x y} isX isY => ?_
  rw [valueIn_intConst isY]
  rcases isScale with (rfl | rfl) | rfl
  · exact congrArg some (Int.mul_one x)
  · exact congrArg some (Int.tdiv_one x)
  · exact congrArg some (Int.fdiv_one x)

theorem sameIn_multiplyZero? (isOver : OverIntegers check env expr)
    (applies : multiplyZero? expr = some result) : SameIn check env expr result := by
  simp [multiplyZero?] at applies
  obtain ⟨⟨term, constType, dtype, rfl⟩, -, rfl⟩ := applies
  have combines := isOver.combines rfl
  have fits := DataType.fits_zero (DataType.isFloat_of_isInteger combines.isInteger)
  refine combines.sameIn_ofInt fits fun {_ x y} isX isY => ?_
  rw [valueIn_intConst isY]
  exact congrArg some (Int.mul_zero x)

theorem sameIn_modOne? (isOver : OverIntegers check env expr) (applies : modOne? expr = some result) :
    SameIn check env expr result := by
  simp [modOne?] at applies
  obtain ⟨op, ⟨term, constType, dtype, rfl⟩, ⟨isRemainder, -⟩, rfl⟩ := applies
  have arithmetic : op.opClass = .arithmetic := by rcases isRemainder with rfl | rfl <;> rfl
  have combines := isOver.combines arithmetic
  have fits := DataType.fits_zero (DataType.isFloat_of_isInteger combines.isInteger)
  refine combines.sameIn_ofInt fits fun {_ x y} isX isY => ?_
  rw [valueIn_intConst isY]
  rcases isRemainder with rfl | rfl
  · exact congrArg some (Int.tmod_one x)
  · exact congrArg some (Int.fmod_one x)

/-- A quotient of equal operands is one, if it has a value. -/
theorem onLane_self_of_quotient {number quotient : Int}
    (isQuotient : op = .truncDiv ∨ op = .floorDiv)
    (made : op.onLane number number = some quotient) : quotient = 1 := by
  rcases isQuotient with rfl | rfl
  · obtain ⟨nonzero, equal⟩ := Option.ite_none_left_eq_some.mp made
    exact (Option.some.inj equal).symm.trans (Int.tdiv_self nonzero)
  · obtain ⟨nonzero, equal⟩ := Option.ite_none_left_eq_some.mp made
    exact (Option.some.inj equal).symm.trans (Int.fdiv_self nonzero)

/-- A type of a single bit cannot hold the quotient: a checked quotient has no value there, and the
constant is no expression. -/
theorem sameIn_divideSelf? {evidence : Evidence} (isOver : OverIntegers check env expr)
    (fits : check = .checked ∨ result.WellTyped)
    (applies : divideSelf? evidence expr = some result) : SameIn check env expr result := by
  simp [divideSelf?] at applies
  obtain ⟨op, term, ⟨dtype, rfl⟩, ⟨isQuotient, isInteger⟩, -, rfl⟩ := applies
  have arithmetic : op.opClass = .arithmetic := by rcases isQuotient with rfl | rfl <;> rfl
  have combines := isOver.combines arithmetic
  have isOne {index : Nat} {number : Int}
      (isNumber : (binary dtype op term term).valueIn check env index = some number) : number = 1 := by
    obtain ⟨x, isX, y, isY, made⟩ := combines.parts.made isNumber
    cases isX.symm.trans isY
    exact onLane_self_of_quotient isQuotient made
  have sameIfFits (fits : (binary dtype op term term).dtype.fits 1 = true) :
      SameIn check env (binary dtype op term term) (ofInt (binary dtype op term term).dtype 1) := by
    have one : Yields check env _ _ _ := yields_ofInt isOver.kinded isOver.typed.valid
      (DataType.isFloat_of_isInteger isInteger) fits
    exact (one.agrees rfl fun _ _ isNumber => congrArg some (isOne isNumber).symm).sameIn isOver.typed
      isOver.kinded isInteger
  rcases fits with rfl | resultTyped
  · intro first second isFirst isSecond
    -- The quotient has a value, so its type holds one.
    obtain ⟨number, isNumber⟩ := isOver.typed.exists_valueIn_zero isOver.kinded isInteger isFirst
    have fits := fits_of_reads_binary isOver.typed isInteger (reads_of_valueAt isNumber)
    rw [isOne isNumber] at fits
    exact sameIfFits fits first second isFirst isSecond
  · exact sameIfFits (fits_of_wellTyped_ofInt isInteger resultTyped)

theorem onLane_self_of_comparison (isComparison : op.isComparison = true) (number : Int) :
    op.onLane number number = some op.holdsOfEqual.toNat := by
  cases op <;>
    simp_all [BinaryOp.isComparison, BinaryOp.opClass, BinaryOp.holdsOfEqual, BinaryOp.onLane]

theorem sameIn_sameOperands? (isOver : OverIntegers check env expr)
    (applies : sameOperands? expr = some result) : SameIn check env expr result := by
  simp [sameOperands?] at applies
  obtain ⟨op, term, ⟨dtype, rfl⟩, applies⟩ := applies
  split at applies
  next kept =>
    cases applies
    rcases kept with isExtremum | isLogical
    · have combines := isOver.combines (BinaryOp.arithmetic_of_isExtremum isExtremum)
      refine combines.sameIn_first fun {_ x y} isX isY => ?_
      cases isX.symm.trans isY
      rcases isExtremum with rfl | rfl
      · exact congrArg some (min_self x)
      · exact congrArg some (max_self x)
    · exact absurd isLogical isOver.not_isLogical
  next =>
    simp at applies
    obtain ⟨⟨-, isComparison⟩, rfl⟩ := applies
    have compares := isOver.compares isComparison
    refine (compares.settles_ofInt fun {_ x y} isX isY => ?_).sameIn compares
    cases isX.symm.trans isY
    exact onLane_self_of_comparison isComparison x

omit [check.Lawful] in
theorem sameIn_logicalConstant? (isOver : OverIntegers check env expr)
    (applies : logicalConstant? expr = some result) : SameIn check env expr result := by
  simp [logicalConstant?] at applies
  obtain ⟨op, lhs, rhs, ⟨dtype, rfl⟩, isLogical, -⟩ := applies
  exact absurd isLogical isOver.not_isLogical

omit [check.Lawful] in
/-- An expression with a single point as its bound is the constant. -/
theorem sameIn_knownValue? (isOver : OverIntegers check env expr)
    (told : answers.TrueIn check env (.bound expr))
    (applies : knownValue? answers.evidence expr = some result) : SameIn check env expr result := by
  simp [knownValue?] at applies
  obtain ⟨⟨⟨isInteger, -⟩, -⟩, value, isPoint, builds⟩ := applies
  refine (agrees_constantLike? isOver.typed isOver.kinded builds
    fun index number isNumber => ?_).sameIn isOver.typed isOver.kinded isInteger
  exact Bound.eq_of_asPoint? isPoint (told index number isNumber)

/-- What a rule that holds for every operator makes has the value of the expression, if everything
that the rule is told is true. -/
theorem sameIn_of_rewrites {rule : Rule} (member : rule ∈ rules) (isOver : OverIntegers check env expr)
    (fits : check = .checked ∨ result.WellTyped) (told : ∀ question, answers.TrueIn check env question)
    (rewrites : rule.Rewrites answers expr result) :
    SameIn check env expr result := by
  simp only [rules, Rule.pure, List.mem_cons, List.not_mem_nil, or_false] at member
  rcases member with rfl | rfl | rfl | rfl | rfl | rfl | rfl | rfl | rfl | rfl | rfl
  · exact sameIn_foldConstants? isOver rewrites
  · exact sameIn_constantToRight? isOver rewrites.1 rewrites.2
  · exact sameIn_logicalConstant? isOver rewrites
  · exact sameIn_addZero? isOver rewrites
  · exact sameIn_subtractSelf? isOver rewrites
  · exact sameIn_multiplyOne? isOver rewrites
  · exact sameIn_multiplyZero? isOver rewrites
  · exact sameIn_modOne? isOver rewrites
  · exact sameIn_divideSelf? isOver fits rewrites
  · exact sameIn_sameOperands? isOver rewrites
  · exact sameIn_knownValue? isOver (told (.bound expr)) rewrites

end Reduction.Identities

/-! ### All rules for arithmetic -/

namespace Reduction

open IndexAlgebra.Expr

variable {check : RangeCheck} [check.Lawful] {env : Environment} {answers : Answers} {expr result : Expr}

/-- The rules that hold for every operator, and those for sums, differences, products and
extrema. -/
def arithmeticRules : List Rule :=
  Identities.rules ++ Sums.sumRules ++ Sums.differenceRules ++ Sums.productRules ++ Extrema.rules

theorem sameIn_of_arithmeticRules {rule : Rule} (member : rule ∈ arithmeticRules)
    (isOver : OverIntegers check env expr) (fits : check = .checked ∨ result.WellTyped)
    (told : ∀ question, answers.TrueIn check env question)
    (rewrites : rule.Rewrites answers expr result) : SameIn check env expr result := by
  simp only [arithmeticRules, List.mem_append] at member
  rcases member with (((isIdentity | isSum) | isDifference) | isProduct) | isExtremum
  · exact Identities.sameIn_of_rewrites isIdentity isOver fits told rewrites
  · exact Sums.sameIn_of_sumRules isSum isOver rewrites
  · exact Sums.sameIn_of_differenceRules isDifference isOver rewrites
  · exact Sums.sameIn_of_productRules isProduct isOver rewrites
  · exact Extrema.sameIn_of_rewrites isExtremum isOver told rewrites

/-- The rules for arithmetic are exact. What a rule makes of a well-typed expression over integers
has the value of the expression wherever both have one, provided that the answers to what the rule
asked are true. Two constants are folded to the value of the expression, and to nothing if it has
none. -/
theorem arithmeticRules_exact (typed : expr.WellTyped) (integers : expr.IntegerOperands)
    (kinded : env.Kinded) :
    (∀ rule ∈ arithmeticRules, ∀ (asked : Question → Prop) (answers : Answers) (result : Expr),
      rule.RewritesAsking asked answers expr result →
      (∀ question, asked question → answers.TrueTo env question) →
      ∀ first second, expr.eval env = some first → result.eval env = some second →
        first = second) ∧
      ∀ dtype op leftType left rightType right,
        expr = binary dtype op (intConst leftType left) (intConst rightType right) →
        (Identities.foldConstants? expr).bind (·.eval env) = expr.eval env := by
  constructor
  · intro rule member asked answers result rewrites told
    obtain ⟨other, isTrue, rewrites⟩ := rewrites.exists_trueIn told
    exact sameIn_of_arithmeticRules member ⟨typed, kinded, integers⟩ (.inl rfl) isTrue rewrites
  · rintro dtype op leftType left rightType right rfl
    exact Identities.eval_foldConstants? env typed

/-- Where `x` is known to be less than `y`, the smaller one of them is `x`, and the largest integer
of a type is not folded with one. -/
theorem arithmeticRules_exact_known :
    let x : Variable := ⟨"x", .int32, false⟩
    let y : Variable := ⟨"y", .int32, false⟩
    let expr := binary .int32 .min x.expr y.expr
    let env := (Environment.empty.set x (.int 3)).set y (.int 5)
    let sum := binary .int32 .add (intConst .int32 2147483647) (intConst .int32 1)
    (∀ first second, expr.eval env = some first → x.expr.eval env = some second → first = second) ∧
      expr.eval env = some (.int 3) ∧
      (Identities.foldConstants? sum).bind (·.eval env) = sum.eval env ∧ sum.eval env = none := by
  intro x y expr env sum
  let asked : Question → Prop := fun question => question = .relation x.expr y.expr
  let answers : Answers := ⟨⟨fun _ => .everything, fun _ => .everything, fun _ => none, []⟩,
    fun _ _ => .less⟩
  have kinded : env.Kinded :=
    ((Environment.typed_empty.set_int rfl (by decide) (by decide)).set_int rfl (by decide)
      (by decide)).kinded
  have rewrites : (Rule.comparing .minMaxKnown Extrema.extremumOperands?
      Extrema.knownExtremum?).RewritesAsking asked answers expr x.expr := by
    intro other same
    have isLess : other.relation x.expr y.expr = .less := same (.relation x.expr y.expr) rfl
    refine ⟨x.expr, y.expr, rfl, ?_⟩
    rw [isLess]
    rfl
  have integers : expr.IntegerOperands := (rfl : DataType.int32.isInteger = true)
  have constants : sum.IntegerOperands := (rfl : DataType.int32.isInteger = true)
  refine ⟨(arithmeticRules_exact (by decide) integers kinded).1 _ ?_ asked answers x.expr
    rewrites ?_, rfl,
    (arithmeticRules_exact (by decide) constants kinded).2 _ _ _ _ _ _ rfl, by decide +kernel⟩
  · simp [arithmeticRules, Extrema.rules]
  · rintro question rfl index left right isLeft isRight
    rw [valueIn_of_evaluate_int (rfl : x.expr.eval env = some (.int 3)) isLeft,
      valueIn_of_evaluate_int (rfl : y.expr.eval env = some (.int 5)) isRight]
    exact (by decide : (3 : Int) < 5)

end Reduction

end IndexAlgebra
