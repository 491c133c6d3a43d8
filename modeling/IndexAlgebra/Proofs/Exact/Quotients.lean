/-
This file proves that the rules for quotients and remainders by a constant are exact: what a rule
makes has the value of the expression that it replaces, and divides by nothing new but constants
other than zero. Whatever the signs of the dividend and of the divisor are, a floored quotient may
be taken apart at a multiple of the divisor; a truncated one may be if neither the dividend nor the
rest is negative, which the rules ask for.
-/
import IndexAlgebra.Proofs.Exactness
import IndexAlgebra.Proofs.Fits.Quotients
import IndexAlgebra.Proofs.SumDivision

namespace IndexAlgebra

/-! ### Quotients and remainders of integers -/

namespace Split

variable {kind : Split} {value factor divisor inner base : Int}

/-- A factor of a product may be divided by a divisor of it. -/
theorem apply_mul_of_dvd (isQuotient : kind.isQuotient = true) (nonzero : divisor ≠ 0)
    (divides : divisor ∣ factor) : kind.apply (value * factor) divisor = value * factor.tdiv divisor := by
  rw [apply_of_dvd kind nonzero (Dvd.dvd.mul_left divides value), if_pos isQuotient,
    Int.mul_ediv_assoc value divides, Int.tdiv_eq_ediv_of_dvd divides]

/-- A positive factor of the dividend and of the divisor may be cancelled in a quotient. -/
theorem apply_mul_mul (isQuotient : kind.isQuotient = true) (positive : 0 < factor) :
    kind.apply (value * factor) (divisor * factor) = kind.apply value divisor := by
  rw [Int.mul_comm value, Int.mul_comm divisor]
  cases kind with
  | truncDiv => exact Int.mul_tdiv_mul_of_pos value divisor positive
  | floorDiv => exact Int.mul_fdiv_mul_of_pos value divisor positive
  | truncMod | floorMod => cases isQuotient

theorem tdiv_tdiv_of_nonneg (inner divisor : Int) (nonneg : 0 ≤ value) (innerNonneg : 0 ≤ inner) :
    (value.tdiv inner).tdiv divisor = value.tdiv (inner * divisor) := by
  rw [Int.tdiv_eq_ediv_of_nonneg nonneg, Int.tdiv_eq_ediv_of_nonneg nonneg,
    Int.tdiv_eq_ediv_of_nonneg (Int.ediv_nonneg nonneg innerNonneg), Int.ediv_ediv_of_nonneg innerNonneg]

/-- A quotient of a quotient is one by the product of the divisors. -/
theorem apply_apply (isQuotient : kind.isQuotient = true) (innerPositive : 0 < inner)
    (positive : 0 < divisor) :
    kind.apply (kind.apply value inner) divisor = kind.apply value (inner * divisor) := by
  cases kind with
  | truncDiv =>
    simp only [apply]
    rcases Int.le_total 0 value with nonneg | nonpos
    · exact tdiv_tdiv_of_nonneg inner divisor nonneg innerPositive.le
    · have opposite := tdiv_tdiv_of_nonneg inner divisor (Int.neg_nonneg_of_nonpos nonpos)
        innerPositive.le
      rwa [Int.neg_tdiv, Int.neg_tdiv, Int.neg_tdiv, neg_inj] at opposite
  | floorDiv =>
    simp only [apply]
    rw [Int.fdiv_eq_ediv_of_nonneg _ innerPositive.le, Int.fdiv_eq_ediv_of_nonneg _ positive.le,
      Int.fdiv_eq_ediv_of_nonneg _ (Int.mul_pos innerPositive positive).le,
      Int.ediv_ediv_of_nonneg innerPositive.le]
  | truncMod | floorMod => cases isQuotient

/-- A remainder of a remainder is one of the dividend, if the outer divisor divides the inner one. -/
theorem apply_apply_of_dvd (isRemainder : kind.isQuotient = false) (divides : divisor ∣ inner) :
    kind.apply (kind.apply value inner) divisor = kind.apply value divisor := by
  cases kind with
  | truncMod => exact Int.tmod_tmod_of_dvd value divides
  | floorMod => exact Int.fmod_fmod_of_dvd value divides
  | truncDiv | floorDiv => cases isRemainder

theorem tmod_of_nonneg (nonneg : 0 ≤ value) (small : value < divisor.natAbs) :
    value.tmod divisor = value := by
  rw [Int.tmod_eq_emod_of_nonneg nonneg, ← Int.emod_abs, Int.abs_eq_natAbs,
    Int.emod_eq_of_lt nonneg small]

/-- An integer that is a remainder already stays as it is. -/
theorem apply_of_isReduced (isRemainder : kind.isQuotient = false) {least greatest : Int}
    (reduced : Reduction.Quotients.isReduced kind.isFloored divisor least greatest = true)
    (low : least ≤ value) (high : value ≤ greatest) : kind.apply value divisor = value := by
  cases kind with
  | truncMod =>
    simp only [Reduction.Quotients.isReduced, isFloored, Bool.not_false, if_true,
      decide_eq_true_eq] at reduced
    simp only [apply]
    rcases Int.le_total 0 value with nonneg | nonpos
    · exact tmod_of_nonneg nonneg (by omega)
    · have opposite := tmod_of_nonneg (Int.neg_nonneg_of_nonpos nonpos) (show -value < divisor.natAbs by omega)
      rwa [Int.neg_tmod, neg_inj] at opposite
  | floorMod =>
    simp only [Reduction.Quotients.isReduced, isFloored, Bool.not_true, Bool.false_eq_true, if_false]
      at reduced
    simp only [apply]
    split at reduced
    · have ends := of_decide_eq_true reduced
      exact Int.fmod_eq_of_lt (by omega) (by omega)
    · have ends := of_decide_eq_true reduced
      have opposite := Int.fmod_eq_of_lt (show 0 ≤ -value by omega) (show -value < -divisor by omega)
      rwa [Int.neg_fmod_neg, neg_inj] at opposite
  | truncDiv | floorDiv => cases isRemainder

/-- The remainder of an integer by a divisor of the modulus of its class is that of the base, if the
remainder is rounded down, zero or that of an integer which is not negative. -/
theorem apply_of_contains (isRemainder : kind.isQuotient = false) {congruence : Congruence}
    (positive : 0 < divisor) (divides : congruence.modulus.tmod divisor = 0)
    (member : congruence.contains value = true)
    (signs : kind.isFloored = true ∨ congruence.base.fmod divisor = 0 ∨ 0 ≤ value) :
    kind.apply value divisor = congruence.base.fmod divisor := by
  have floored : value.fmod divisor = congruence.base.fmod divisor := by
    obtain ⟨factor, -, rfl⟩ := Congruence.exists_of_contains member divides
    rw [Int.add_comm, Int.add_mul_fmod_self_left]
  cases kind with
  | floorMod => exact floored
  | truncMod =>
    rw [← floored] at signs ⊢
    simp only [apply]
    rcases signs with isFloored | zero | nonneg
    · cases isFloored
    · rw [zero, ← Int.dvd_iff_tmod_eq_zero]
      exact Int.dvd_of_fmod_eq_zero zero
    · rw [Int.tmod_eq_emod_of_nonneg nonneg, Int.fmod_eq_emod_of_nonneg _ positive.le]
  | truncDiv | floorDiv => cases isRemainder

/-- A multiple of the divisor may be left out of a remainder, if neither the sum nor the rest is
negative or the remainder is rounded down. -/
theorem onLane_of_apply_add {multiple rest number : Int} (isRemainder : kind.isQuotient = false)
    (nonzero : divisor ≠ 0) (divides : divisor ∣ multiple)
    (signs : kind.isFloored = false → 0 ≤ multiple + rest ∧ 0 ≤ rest)
    (divided : kind.apply (multiple + rest) divisor = number) :
    kind.op.onLane rest divisor = some number := by
  rw [apply_add kind nonzero divides signs, if_neg (by simp [isRemainder])] at divided
  exact divided ▸ onLane_op kind nonzero

/-- A sum or a difference adds the second operand or its opposite to the first one. -/
theorem onLane_of_isSum {sumOp : BinaryOp} (isSum : sumOp = .add ∨ sumOp = .sub) (value shift : Int) :
    sumOp.onLane value shift = some ((if sumOp = .add then shift else -shift) + value) := by
  rcases isSum with rfl | rfl
  · exact congrArg some (Int.add_comm value shift)
  · exact congrArg some (Int.sub_eq_add_neg.trans (Int.add_comm value (-shift)))

/-- A multiple of the divisor is added to or subtracted from a dividend that may be taken apart. -/
theorem apply_onLane {sumOp : BinaryOp} {shift shifted : Int} (isSum : sumOp = .add ∨ sumOp = .sub)
    (nonzero : divisor ≠ 0) (divides : divisor ∣ shift)
    (shifts : sumOp.onLane value shift = some shifted)
    (signs : kind.isFloored = false → 0 ≤ shifted ∧ 0 ≤ value) :
    if kind.isQuotient then
      sumOp.onLane (kind.apply value divisor) (shift.tdiv divisor) = some (kind.apply shifted divisor)
    else kind.apply shifted divisor = kind.apply value divisor := by
  rw [onLane_of_isSum isSum, Option.some.injEq] at shifts
  subst shifts
  rw [onLane_of_isSum isSum, Int.tdiv_eq_ediv_of_dvd divides]
  rcases isSum with rfl | rfl
  · have taken := apply_add kind nonzero divides signs
    simp only [if_true]
    rw [taken]
    split <;> rfl
  · have taken := apply_add kind nonzero (Int.dvd_neg.mpr divides) signs
    simp only [reduceCtorEq, if_false]
    rw [taken, Int.neg_ediv_of_dvd divides]
    split <;> rfl

end Split

namespace Expr

/-- The parts of a part of an expression are parts of it. -/
theorem postOrder_subset_of_mem {expr part : Expr} (isPart : part ∈ expr.postOrder) :
    part.postOrder ⊆ expr.postOrder := by
  have step : ∀ node : Expr, node.postOrder ⊆ expr.postOrder → ∀ child ∈ node.children,
      child.postOrder ⊆ expr.postOrder := fun node inside child isChild other member =>
    inside (mem_postOrder.mpr (.inr ⟨child, isChild, member⟩))
  exact of_mem_postOrder step expr (List.Subset.refl _) isPart

theorem mem_postOrder_of_mem_children {expr child : Expr} (isChild : child ∈ expr.children) :
    child ∈ expr.postOrder := mem_postOrder.mpr (.inr ⟨child, isChild, child.self_mem_postOrder⟩)

end Expr

namespace Reduction.Quotients

open IndexAlgebra.Expr

attribute [local simp] Option.bind_eq_some_iff Option.guard_eq_some'

variable {check : RangeCheck} [check.Lawful] {env : Environment} {expr result dividend x a b : Expr}
  {op : BinaryOp} {kind : Split}
  {dtype innerType constType : DataType} {divisor value shift : Int} {answers : Answers}

/-! ### Divisions -/

/-- Every quotient and every remainder in the result is part of the expression, or its divisor is a
constant other than zero. -/
def Guarded (expr result : Expr) : Prop :=
  ∀ dtype op lhs rhs, IsDivision op → binary dtype op lhs rhs ∈ result.postOrder →
    binary dtype op lhs rhs ∈ expr.postOrder ∨ ∃ divisor, rhs.asInt? = some divisor ∧ divisor ≠ 0

theorem guarded_of_mem (isPart : result ∈ expr.postOrder) : Guarded expr result :=
  fun _ _ _ _ _ member => .inl (postOrder_subset_of_mem isPart member)

theorem guarded_ofInt (dtype : DataType) (value : Int) : Guarded expr (ofInt dtype value) := by
  intro nodeType op lhs rhs _ member
  unfold ofInt scalarOfInt at member
  split_ifs at member <;> simp [postOrder] at member

theorem Guarded.binary (isLeft : Guarded expr a) (isRight : Guarded expr b)
    (nonzero : IsDivision op → ∃ divisor, b.asInt? = some divisor ∧ divisor ≠ 0) :
    Guarded expr (binary dtype op a b) := by
  intro nodeType nodeOp lhs rhs isDivision member
  rw [postOrder, List.mem_append, List.mem_append, List.mem_singleton] at member
  rcases member with (inLeft | inRight) | same
  · exact isLeft _ _ _ _ isDivision inLeft
  · exact isRight _ _ _ _ isDivision inRight
  · cases same
    exact .inr (nonzero isDivision)

/-- A scalar constant is a constant node. -/
theorem constantLike?_eq_some {like built : Expr} (scalar : like.dtype.lanes = 1)
    (builds : constantLike? like value = some built) : built = intConst like.dtype value := by
  obtain ⟨⟨-, isInteger, -⟩, equal⟩ := Option.ite_none_right_eq_some.mp builds
  rw [ofInt_of_scalar scalar isInteger] at equal
  exact (Option.some.inj equal).symm

theorem Guarded.binaryConst? {built : Expr} (isTerm : Guarded expr x) (scalar : x.dtype.lanes = 1)
    (nonzero : IsDivision op → value ≠ 0) (builds : binaryConst? op x value = some built) :
    Guarded expr built := by
  obtain ⟨constant, isConstant, builds⟩ := Option.bind_eq_some_iff.mp builds
  have isConst := constantLike?_eq_some scalar isConstant
  subst isConst
  have same : x.dtype = (intConst x.dtype value).dtype := rfl
  obtain ⟨rfl, -⟩ := binary?_eq_some same builds
  refine isTerm.binary (fun _ _ _ _ _ member => ?_) fun isDivision => ⟨value, rfl, nonzero isDivision⟩
  simp [postOrder] at member

theorem guarded_constantLike? {like built : Expr} (builds : constantLike? like value = some built) :
    Guarded expr built :=
  Option.some.inj (Option.ite_none_right_eq_some.mp builds).2 ▸ guarded_ofInt like.dtype value

theorem Guarded.binary? {built : Expr} (isLeft : Guarded expr a) (isRight : Guarded expr b)
    (same : a.dtype = b.dtype) (notDivision : ¬IsDivision op) (builds : binary? op a b = some built) :
    Guarded expr built := by
  obtain ⟨rfl, -⟩ := binary?_eq_some same builds
  exact isLeft.binary isRight fun isDivision => absurd isDivision notDivision

/-- What a rule makes of an expression: it has the integers of the expression, and divides by nothing
new but constants other than zero. -/
structure Exact (check : RangeCheck) (env : Environment) (expr result : Expr) : Prop where
  isInteger : expr.dtype.isInteger = true
  agrees : Agrees check env expr result
  guarded : Guarded expr result

/-- The expression is the quotient or the remainder of a dividend by a constant other than zero. -/
structure Divides (check : RangeCheck) (env : Environment) (kind : Split) (expr dividend : Expr)
    (divisor : Int) : Prop where
  nonzero : divisor ≠ 0
  typed : expr.WellTyped
  isInteger : expr.dtype.isInteger = true
  scalar : expr.dtype.lanes = 1
  isDividend : Yields check env dividend expr.dtype (dividend.valueIn check env)
  isPart : dividend ∈ expr.children
  made : ∀ {index number}, expr.valueIn check env index = some number →
    ∃ value, dividend.valueIn check env index = some value ∧ kind.apply value divisor = number

theorem isFloored_op (kind : Split) (dividend : Expr) (divisor : Int) :
    Division.isFloored ⟨kind.op, dividend, divisor⟩ = kind.isFloored := by cases kind <;> rfl

theorem binaryType_op (kind : Split) (dtype : DataType) : binaryType kind.op dtype = dtype :=
  binaryType_of_arithmetic (Split.opClass_op kind)

theorem divides_intConst (typed : (binary dtype kind.op dividend (intConst constType divisor)).WellTyped)
    (kinded : env.Kinded) (nonzero : divisor ≠ 0) :
    Divides check env kind (binary dtype kind.op dividend (intConst constType divisor)) dividend
      divisor := by
  have node := typed
  rw [WellTyped] at node
  obtain ⟨-, isConst, same, isType, -⟩ := node
  rw [binaryType_op, same] at isType
  subst isType
  rw [WellTyped] at isConst
  have node : Yields check env _ _ _ := typed.yields
  have parts := node.parts kinded isConst.2.1
  refine ⟨nonzero, typed, isConst.2.1, isConst.2.2.1, parts.isFirst, List.mem_cons_self, ?_⟩
  intro index number isNumber
  obtain ⟨value, isValue, made⟩ := parts.made_const isNumber
  rw [Split.onLane_op kind nonzero] at made
  exact ⟨value, isValue, Option.some.inj made⟩

variable (check) in
theorem divides_of_asQuotient? (typed : expr.WellTyped) (kinded : env.Kinded)
    (found : asQuotient? expr = some ⟨op, dividend, divisor⟩) :
    ∃ kind : Split, kind.isQuotient = true ∧ kind.op = op ∧ Divides check env kind expr dividend divisor := by
  simp [asQuotient?] at found
  obtain ⟨⟨constType, dtype, rfl⟩, isQuotient, nonzero⟩ := found
  rcases isQuotient with rfl | rfl
  · exact ⟨.truncDiv, rfl, rfl, divides_intConst typed kinded nonzero⟩
  · exact ⟨.floorDiv, rfl, rfl, divides_intConst typed kinded nonzero⟩

variable (check) in
theorem divides_of_asRemainder? (typed : expr.WellTyped) (kinded : env.Kinded)
    (found : asRemainder? expr = some ⟨op, dividend, divisor⟩) :
    ∃ kind : Split, kind.isQuotient = false ∧ kind.op = op ∧ Divides check env kind expr dividend divisor := by
  simp [asRemainder?] at found
  obtain ⟨⟨constType, dtype, rfl⟩, isRemainder, nonzero⟩ := found
  rcases isRemainder with rfl | rfl
  · exact ⟨.truncMod, rfl, rfl, divides_intConst typed kinded nonzero⟩
  · exact ⟨.floorMod, rfl, rfl, divides_intConst typed kinded nonzero⟩

namespace Divides

/-- The dividend may be taken apart, and its parts are parts of the expression. -/
theorem parts (divides : Divides check env kind expr (binary innerType op a b) divisor)
    (kinded : env.Kinded) : Parts check env op (binary innerType op a b) expr.dtype a b ∧
      a ∈ expr.postOrder ∧ b ∈ expr.postOrder := by
  have isPart {child : Expr} (isChild : child ∈ (binary innerType op a b).children) :
      child ∈ expr.postOrder :=
    postOrder_subset_of_mem (mem_postOrder_of_mem_children divides.isPart)
      (mem_postOrder_of_mem_children isChild)
  exact ⟨divides.isDividend.parts kinded divides.isInteger, isPart (by simp [children]),
    isPart (by simp [children])⟩

/-- A part of the expression and a constant are put in its place. -/
theorem exact_binaryConst? (divides : Divides check env kind expr dividend divisor) (kinded : env.Kinded)
    (isTerm : Yields check env x expr.dtype (x.valueIn check env)) (isPart : x ∈ expr.postOrder)
    (arithmetic : op.opClass = .arithmetic) (nonzero : IsDivision op → value ≠ 0)
    (builds : binaryConst? op x value = some result)
    (reads : ∀ index number, expr.valueIn check env index = some number →
      ∃ left, x.valueIn check env index = some left ∧ op.onLane left value = some number) :
    Exact check env expr result :=
  ⟨divides.isInteger, agrees_binaryConst? isTerm kinded builds (binaryType_of_arithmetic arithmetic) reads,
    (guarded_of_mem isPart).binaryConst? (isTerm.isType ▸ divides.scalar) nonzero builds⟩

/-- A part of the expression with a constant added to it is divided in its place. -/
theorem exact_moved {moved constant : Expr} (divides : Divides check env kind expr dividend divisor)
    (kinded : env.Kinded) (isTerm : Yields check env x expr.dtype (x.valueIn check env))
    (isPart : x ∈ expr.postOrder)
    (isMoved : binaryConst? .add x shift = some moved)
    (isConstant : constantLike? x divisor = some constant)
    (builds : binary? kind.op moved constant = some result)
    (reads : ∀ index number, expr.valueIn check env index = some number →
      ∃ left, x.valueIn check env index = some left ∧
        kind.op.onLane (left + shift) divisor = some number) : Exact check env expr result := by
  have scalar : x.dtype.lanes = 1 := isTerm.isType ▸ divides.scalar
  have yieldsMoved := isTerm.binaryConst? kinded isMoved
  have yieldsConstant := isTerm.constantLike? kinded isConstant
  have notFloat := DataType.isFloat_of_isInteger divides.isInteger
  refine ⟨divides.isInteger, ?_, ?_⟩
  · refine (yieldsMoved.binary? yieldsConstant kinded notFloat builds).agrees (binaryType_op kind _)
      fun index number isNumber => ?_
    obtain ⟨left, isLeft, made⟩ := reads index number isNumber
    simp only [isLeft, Option.bind_some, BinaryOp.onLane]
    exact made
  · obtain ⟨rfl, -⟩ := binary?_eq_some (yieldsMoved.isType.trans yieldsConstant.isType.symm) builds
    refine Guarded.binary ?_ (guarded_constantLike? isConstant) fun _ => ⟨divisor, ?_, divides.nonzero⟩
    · exact (guarded_of_mem isPart).binaryConst? scalar (by simp [IsDivision]) isMoved
    · rw [constantLike?_eq_some scalar isConstant, asInt?]

end Divides

/-! ### Quotients -/

theorem not_isDivision_of_isSum {sumOp : BinaryOp} (isSum : sumOp = .add ∨ sumOp = .sub) :
    ¬IsDivision sumOp := by
  rcases isSum with rfl | rfl <;> simp [IsDivision]

theorem exact_divideProduct? (typed : expr.WellTyped) (kinded : env.Kinded)
    (applies : divideProduct? expr = some result) : Exact check env expr result := by
  simp [divideProduct?] at applies
  obtain ⟨⟨op, dividend, divisor⟩, found, x, factor, ⟨innerType, innerConst, rfl⟩, applies⟩ := applies
  obtain ⟨kind, isQuotient, rfl, divides⟩ := divides_of_asQuotient? check typed kinded found
  obtain ⟨product, isPart, -⟩ := divides.parts kinded
  have reads {index : Nat} {number : Int} (isNumber : expr.valueIn check env index = some number) :
      ∃ left, x.valueIn check env index = some left ∧ kind.apply (left * factor) divisor = number := by
    obtain ⟨value, isValue, divided⟩ := divides.made isNumber
    obtain ⟨left, isLeft, made⟩ := product.made_const isValue
    exact ⟨left, isLeft, Option.some.inj made ▸ divided⟩
  split at applies
  next isMultiple =>
    obtain ⟨nonzero, isFactor⟩ := Word.isMultiple_iff.mp isMultiple
    refine divides.exact_binaryConst? kinded product.isFirst isPart rfl (by simp [IsDivision]) applies ?_
    intro index number isNumber
    obtain ⟨left, isLeft, divided⟩ := reads isNumber
    refine ⟨left, isLeft, ?_⟩
    rw [← divided, Split.apply_mul_of_dvd isQuotient nonzero isFactor]
    rfl
  next =>
    simp at applies
    obtain ⟨⟨positive, divisorPositive, isFactor⟩, builds⟩ := applies
    obtain ⟨quotient, rfl⟩ := Int.dvd_of_tmod_eq_zero isFactor
    rw [Int.mul_tdiv_cancel_left quotient positive.ne'] at builds
    have nonzero : quotient ≠ 0 := right_ne_zero_of_mul divisorPositive.ne'
    refine divides.exact_binaryConst? kinded product.isFirst isPart (Split.opClass_op kind)
      (fun _ => nonzero) builds ?_
    intro index number isNumber
    obtain ⟨left, isLeft, divided⟩ := reads isNumber
    refine ⟨left, isLeft, ?_⟩
    rw [Split.onLane_op kind nonzero, ← divided, Int.mul_comm factor, Split.apply_mul_mul isQuotient positive]

omit [check.Lawful] in
/-- Neither of two integers is negative if the bounds say so. -/
theorem nonneg_of_neitherNegative {first second : Expr} {index : Nat} {left right : Int}
    (told : ∀ question, answers.TrueIn check env question)
    (neither : neitherNegative answers.evidence first second = true)
    (isFirst : first.valueIn check env index = some left)
    (isSecond : second.valueIn check env index = some right) :
    0 ≤ left ∧ 0 ≤ right := by
  obtain ⟨leftNonneg, rightNonneg⟩ := Bool.and_eq_true_iff.mp neither
  exact ⟨Bound.nonneg_of_isNonNegative leftNonneg (told (.bound first) index left isFirst),
    Bound.nonneg_of_isNonNegative rightNonneg (told (.bound second) index right isSecond)⟩

theorem exact_splitOffset? (told : ∀ question, answers.TrueIn check env question)
    (typed : expr.WellTyped)
    (kinded : env.Kinded) (applies : splitOffset? answers.evidence expr = some result) :
    Exact check env expr result := by
  simp [splitOffset?] at applies
  obtain ⟨⟨op, dividend, divisor⟩, found, sumOp, x, shift, ⟨innerConst, innerType, rfl⟩,
    ⟨isSum, isMultiple⟩, signs, quotient, isDivided, constant, isConstant, builds⟩ := applies
  obtain ⟨kind, isQuotient, rfl, divides⟩ := divides_of_asQuotient? check typed kinded found
  obtain ⟨sum, isPart, -⟩ := divides.parts kinded
  obtain ⟨nonzero, divisible⟩ := Word.isMultiple_iff.mp isMultiple
  have isTerm : Yields check env x expr.dtype (x.valueIn check env) := sum.isFirst
  have yieldsQuotient := isTerm.binaryConst? kinded isDivided
  rw [binaryType_op] at yieldsQuotient
  have yieldsConstant := isTerm.constantLike? kinded isConstant
  have notFloat := DataType.isFloat_of_isInteger divides.isInteger
  have arithmetic : sumOp.opClass = .arithmetic := by rcases isSum with rfl | rfl <;> rfl
  refine ⟨divides.isInteger, ?_, ?_⟩
  · refine (yieldsQuotient.binary? yieldsConstant kinded notFloat builds).agrees
      (binaryType_of_arithmetic arithmetic) fun index number isNumber => ?_
    obtain ⟨value, isValue, divided⟩ := divides.made isNumber
    obtain ⟨left, isLeft, shifts⟩ := sum.made_const isValue
    have apart := Split.apply_onLane isSum nonzero divisible shifts fun truncated => by
      rw [isFloored_op, truncated, Bool.false_eq_true, false_or] at signs
      exact (nonneg_of_neitherNegative told signs isLeft isValue).symm
    rw [if_pos isQuotient, divided] at apart
    simp only [isLeft, Option.bind_some, Split.onLane_op kind nonzero]
    exact apart
  · refine Guarded.binary? ?_ (guarded_constantLike? isConstant)
      (yieldsQuotient.isType.trans yieldsConstant.isType.symm) (not_isDivision_of_isSum isSum) builds
    exact (guarded_of_mem isPart).binaryConst? (isTerm.isType ▸ divides.scalar) (fun _ => nonzero) isDivided

/-- The dividend is the sum of a product, by a multiple of the divisor, and of a rest. -/
structure Peels (check : RangeCheck) (env : Environment) (expr dividend product rest x : Expr)
    (coefficient divisor : Int) :
    Prop where
  divides : divisor ∣ coefficient
  isFactor : Yields check env x expr.dtype (x.valueIn check env)
  isRest : Yields check env rest expr.dtype (rest.valueIn check env)
  factorPart : x ∈ expr.postOrder
  restPart : rest ∈ expr.postOrder
  made : ∀ {index value}, dividend.valueIn check env index = some value → ∃ factor other,
    x.valueIn check env index = some factor ∧
      product.valueIn check env index = some (factor * coefficient) ∧
      rest.valueIn check env index = some other ∧ factor * coefficient + other = value

theorem Divides.peels {product rest : Expr} {coefficient : Int}
    (divides : Divides check env kind expr dividend divisor) (kinded : env.Kinded)
    (found : splitMultiple? divisor dividend = some (product, rest, x, coefficient)) :
    Peels check env expr dividend product rest x coefficient divisor := by
  obtain ⟨isMultiple, sumType, sum, innerType, innerConst, rfl⟩ := splitMultiple?_eq_some found
  have parts : Parts check env .add dividend expr.dtype
      (binary innerType .mul x (intConst innerConst coefficient)) rest ∧
        binary innerType .mul x (intConst innerConst coefficient) ∈ expr.postOrder ∧
        rest ∈ expr.postOrder := by
    rcases sum with rfl | rfl
    · exact divides.parts kinded
    · obtain ⟨parts, isRest, isProduct⟩ := divides.parts kinded
      exact ⟨parts.symm rfl, isProduct, isRest⟩
  obtain ⟨parts, productPart, restPart⟩ := parts
  have factors := parts.isFirst.parts kinded divides.isInteger
  have factorPart := postOrder_subset_of_mem productPart
    (mem_postOrder_of_mem_children (List.mem_cons_self : x ∈ _))
  refine ⟨(Word.isMultiple_iff.mp isMultiple).2, factors.isFirst, parts.isSecond, factorPart, restPart, ?_⟩
  intro index value isValue
  obtain ⟨first, isFirst, other, isOther, made⟩ := parts.made isValue
  obtain ⟨factor, isFactor, multiplied⟩ := factors.made_const isFirst
  cases multiplied
  exact ⟨factor, other, isFactor, isFirst, isOther, Option.some.inj made⟩

theorem exact_splitTerm? (told : ∀ question, answers.TrueIn check env question) (typed : expr.WellTyped)
    (kinded : env.Kinded) (applies : splitTerm? answers.evidence expr = some result) :
    Exact check env expr result := by
  simp [splitTerm?] at applies
  obtain ⟨⟨op, dividend, divisor⟩, found, product, rest, x, coefficient, isSplit, signs, scaled,
    isScaled, quotient, isDivided, builds⟩ := applies
  obtain ⟨kind, isQuotient, rfl, divides⟩ := divides_of_asQuotient? check typed kinded found
  have peels := divides.peels kinded isSplit
  have yieldsScaled : Yields check env scaled expr.dtype _ := peels.isFactor.binaryConst? kinded isScaled
  have yieldsQuotient := peels.isRest.binaryConst? kinded isDivided
  rw [binaryType_op] at yieldsQuotient
  have notFloat := DataType.isFloat_of_isInteger divides.isInteger
  refine ⟨divides.isInteger, ?_, ?_⟩
  · refine (yieldsScaled.binary? yieldsQuotient kinded notFloat builds).agrees rfl
      fun index number isNumber => ?_
    obtain ⟨value, isValue, divided⟩ := divides.made isNumber
    obtain ⟨factor, other, isFactor, isProduct, isOther, rfl⟩ := peels.made isValue
    have apart := Split.apply_add kind divides.nonzero (Dvd.dvd.mul_left peels.divides factor)
      fun truncated => by
        rw [isFloored_op, truncated, Bool.false_eq_true, false_or] at signs
        obtain ⟨first, second⟩ := nonneg_of_neitherNegative told signs isProduct isOther
        exact ⟨Int.add_nonneg first second, second⟩
    rw [if_pos isQuotient, divided, Int.mul_ediv_assoc factor peels.divides,
      ← Int.tdiv_eq_ediv_of_dvd peels.divides] at apart
    simp only [isFactor, isOther, Option.bind_some, Split.onLane_op kind divides.nonzero]
    exact congrArg some apart.symm
  · have scalar {term : Expr} (isTerm : Yields check env term expr.dtype (term.valueIn check env)) :
        term.dtype.lanes = 1 := isTerm.isType ▸ divides.scalar
    refine Guarded.binary? ?_ ?_ (yieldsScaled.isType.trans yieldsQuotient.isType.symm)
      (by simp [IsDivision]) builds
    · exact (guarded_of_mem peels.factorPart).binaryConst? (scalar peels.isFactor)
        (by simp [IsDivision]) isScaled
    · exact (guarded_of_mem peels.restPart).binaryConst? (scalar peels.isRest)
        (fun _ => divides.nonzero) isDivided

theorem exact_splitDividend? (told : ∀ question, answers.TrueIn check env question)
    (typed : expr.WellTyped) (kinded : env.Kinded)
    (applies : splitDividend? answers.evidence expr = some result) : Exact check env expr result := by
  simp [splitDividend?] at applies
  obtain ⟨_, _, _, _, _, _, _, applies⟩ := applies
  split at applies
  · exact exact_splitOffset? told typed kinded applies
  · exact exact_splitTerm? told typed kinded applies

theorem exact_nestedQuotient? (typed : expr.WellTyped) (kinded : env.Kinded)
    (applies : nestedQuotient? expr = some result) : Exact check env expr result := by
  simp [nestedQuotient?] at applies
  obtain ⟨⟨op, dividend, divisor⟩, found, x, inner,
    ⟨innerType, innerConst, isDividend⟩, ⟨innerPositive, positive⟩, builds⟩ := applies
  dsimp only at isDividend positive builds
  subst isDividend
  obtain ⟨kind, isQuotient, rfl, divides⟩ := divides_of_asQuotient? check typed kinded found
  obtain ⟨quotient, isPart, -⟩ := divides.parts kinded
  have nonzero := (Int.mul_pos innerPositive positive).ne'
  refine divides.exact_binaryConst? kinded quotient.isFirst isPart (Split.opClass_op kind)
    (fun _ => nonzero) builds fun index number isNumber => ?_
  obtain ⟨value, isValue, divided⟩ := divides.made isNumber
  obtain ⟨left, isLeft, made⟩ := quotient.made_const isValue
  rw [Split.onLane_op kind innerPositive.ne'] at made
  cases made
  refine ⟨left, isLeft, ?_⟩
  rw [Split.onLane_op kind nonzero, ← divided, Split.apply_apply isQuotient innerPositive positive]

/-! ### Remainders -/

theorem exact_modInRange? (told : ∀ question, answers.TrueIn check env question) (typed : expr.WellTyped)
    (kinded : env.Kinded) (applies : modInRange? answers.evidence expr = some result) :
    Exact check env expr result := by
  simp [modInRange?] at applies
  obtain ⟨⟨op, dividend, divisor⟩, found, least, isLeast, greatest, isGreatest, reduced, rfl⟩ := applies
  obtain ⟨kind, isRemainder, rfl, divides⟩ := divides_of_asRemainder? check typed kinded found
  rw [isFloored_op] at reduced
  refine ⟨divides.isInteger, divides.isDividend.agrees rfl fun index number isNumber => ?_,
    guarded_of_mem (mem_postOrder_of_mem_children divides.isPart)⟩
  obtain ⟨value, isValue, divided⟩ := divides.made isNumber
  have within := Bound.contains_iff.mp (told (.bound dividend) index value isValue)
  rw [Bound.eq_finite_of_finite? isLeast, Bound.eq_finite_of_finite? isGreatest,
    Limit.finite_le_finite, Limit.finite_le_finite] at within
  rw [Split.apply_of_isReduced isRemainder reduced within.1 within.2] at divided
  exact divided ▸ isValue

theorem exact_remainderOfProduct? (typed : expr.WellTyped) (kinded : env.Kinded)
    (applies : remainderOfProduct? expr = some result) : Exact check env expr result := by
  simp [remainderOfProduct?] at applies
  obtain ⟨⟨op, dividend, divisor⟩, found, x, factor, ⟨innerType, innerConst, rfl⟩, isMultiple,
    builds⟩ := applies
  obtain ⟨kind, isRemainder, rfl, divides⟩ := divides_of_asRemainder? check typed kinded found
  obtain ⟨product, -⟩ := divides.parts kinded
  refine ⟨divides.isInteger, agrees_constantLike? typed kinded builds fun index number isNumber => ?_,
    guarded_constantLike? builds⟩
  obtain ⟨value, isValue, divided⟩ := divides.made isNumber
  obtain ⟨left, isLeft, made⟩ := product.made_const isValue
  cases made
  obtain ⟨nonzero, isFactor⟩ := Word.isMultiple_iff.mp isMultiple
  rw [Split.apply_of_dvd kind nonzero (Dvd.dvd.mul_left isFactor left),
    if_neg (by simp [isRemainder])] at divided
  exact divided.symm

theorem exact_dropMultiple? (told : ∀ question, answers.TrueIn check env question)
    (typed : expr.WellTyped)
    (kinded : env.Kinded) (applies : dropMultiple? answers.evidence expr = some result) :
    Exact check env expr result := by
  simp [dropMultiple?] at applies
  obtain ⟨⟨op, dividend, divisor⟩, found, -, product, rest, ⟨x, coefficient, isSplit⟩, signs,
    builds⟩ := applies
  obtain ⟨kind, isRemainder, rfl, divides⟩ := divides_of_asRemainder? check typed kinded found
  have peels := divides.peels kinded isSplit
  refine divides.exact_binaryConst? kinded peels.isRest peels.restPart (Split.opClass_op kind)
    (fun _ => divides.nonzero) builds fun index number isNumber => ?_
  obtain ⟨value, isValue, divided⟩ := divides.made isNumber
  obtain ⟨factor, other, -, isProduct, isOther, rfl⟩ := peels.made isValue
  refine ⟨other, isOther, Split.onLane_of_apply_add isRemainder divides.nonzero
    (Dvd.dvd.mul_left peels.divides factor) (fun truncated => ?_) divided⟩
  rw [isFloored_op, truncated, Bool.false_eq_true, false_or] at signs
  obtain ⟨first, second⟩ := nonneg_of_neitherNegative told signs isProduct isOther
  exact ⟨Int.add_nonneg first second, second⟩

theorem exact_modularRemainder? (told : ∀ question, answers.TrueIn check env question)
    (typed : expr.WellTyped) (kinded : env.Kinded)
    (applies : modularRemainder? answers.evidence expr = some result) : Exact check env expr result := by
  simp [modularRemainder?] at applies
  obtain ⟨⟨op, dividend, divisor⟩, found, positive, isMultiple, signs, builds⟩ := applies
  obtain ⟨kind, isRemainder, rfl, divides⟩ := divides_of_asRemainder? check typed kinded found
  rw [isFloored_op] at signs
  refine ⟨divides.isInteger, agrees_constantLike? typed kinded builds fun index number isNumber => ?_,
    guarded_constantLike? builds⟩
  obtain ⟨value, isValue, divided⟩ := divides.made isNumber
  rw [← divided]
  refine Split.apply_of_contains isRemainder positive isMultiple
    (told (.congruence dividend) index value isValue) ?_
  rcases signs with (isFloored | zero) | nonNegative
  · exact .inl isFloored
  · exact .inr (.inl zero)
  · exact .inr (.inr (Bound.nonneg_of_isNonNegative nonNegative
      (told (.bound dividend) index value isValue)))

theorem exact_nestedRemainder? (typed : expr.WellTyped) (kinded : env.Kinded)
    (applies : nestedRemainder? expr = some result) : Exact check env expr result := by
  simp [nestedRemainder?] at applies
  obtain ⟨⟨op, dividend, divisor⟩, found, x, inner,
    ⟨innerType, innerConst, isDividend⟩, ⟨innerPositive, positive, isMultiple⟩, builds⟩ := applies
  dsimp only at isDividend positive isMultiple builds
  subst isDividend
  obtain ⟨kind, isRemainder, rfl, divides⟩ := divides_of_asRemainder? check typed kinded found
  obtain ⟨remainder, isPart, -⟩ := divides.parts kinded
  refine divides.exact_binaryConst? kinded remainder.isFirst isPart (Split.opClass_op kind)
    (fun _ => positive.ne') builds fun index number isNumber => ?_
  obtain ⟨value, isValue, divided⟩ := divides.made isNumber
  obtain ⟨left, isLeft, made⟩ := remainder.made_const isValue
  rw [Split.onLane_op kind innerPositive.ne'] at made
  cases made
  rw [Split.apply_apply_of_dvd isRemainder (Int.dvd_of_tmod_eq_zero isMultiple)] at divided
  exact ⟨left, isLeft, divided ▸ Split.onLane_op kind positive.ne'⟩

theorem exact_reduceOffset? (told : ∀ question, answers.TrueIn check env question)
    (typed : expr.WellTyped)
    (kinded : env.Kinded) (applies : reduceOffset? answers.evidence expr = some result) :
    Exact check env expr result := by
  simp [reduceOffset?] at applies
  obtain ⟨⟨op, dividend, divisor⟩, found, sumOp, x, shift, innerConst, ⟨innerType, rfl⟩, isSum,
    applies⟩ := applies
  obtain ⟨kind, isRemainder, rfl, divides⟩ := divides_of_asRemainder? check typed kinded found
  obtain ⟨sum, isPart, -⟩ := divides.parts kinded
  rw [isFloored_op] at applies
  dsimp only at applies
  have reads {index : Nat} {number : Int} (isNumber : expr.valueIn check env index = some number) :
      ∃ left value, x.valueIn check env index = some left ∧
        (binary innerType sumOp x (intConst innerConst shift)).valueIn check env index = some value ∧
        (if sumOp = .add then shift else -shift) + left = value ∧
        kind.apply value divisor = number := by
    obtain ⟨value, isValue, divided⟩ := divides.made isNumber
    obtain ⟨left, isLeft, shifts⟩ := sum.made_const isValue
    rw [Split.onLane_of_isSum isSum] at shifts
    exact ⟨left, value, isLeft, isValue, Option.some.inj shifts, divided⟩
  generalize (if sumOp = .add then shift else -shift) = signed at applies reads
  split at applies
  next isFloored =>
    simp only [Option.bind_eq_some_iff] at applies
    obtain ⟨-, -, applies⟩ := applies
    split at applies
    next zero =>
      refine divides.exact_binaryConst? kinded sum.isFirst isPart (Split.opClass_op kind)
        (fun _ => divides.nonzero) applies fun index number isNumber => ?_
      obtain ⟨left, value, isLeft, -, rfl, divided⟩ := reads isNumber
      exact ⟨left, isLeft, Split.onLane_of_apply_add isRemainder divides.nonzero
        (Int.dvd_of_fmod_eq_zero zero) (fun truncated => by simp [isFloored] at truncated) divided⟩
    next =>
      simp only [Option.bind_eq_some_iff] at applies
      obtain ⟨moved, isMoved, constant, isConstant, builds⟩ := applies
      refine divides.exact_moved kinded sum.isFirst isPart isMoved isConstant builds
        fun index number isNumber => ?_
      obtain ⟨left, value, isLeft, -, rfl, divided⟩ := reads isNumber
      have split : signed + left = divisor * signed.fdiv divisor + (left + signed.fmod divisor) := by
        have parts := Int.mul_fdiv_add_fmod signed divisor
        omega
      rw [split] at divided
      exact ⟨left, isLeft, Split.onLane_of_apply_add isRemainder divides.nonzero (Int.dvd_mul_right _ _)
        (fun truncated => by simp [isFloored] at truncated) divided⟩
  next truncated =>
    simp only [Option.bind_eq_some_iff, Option.guard_eq_some'] at applies
    obtain ⟨-, ⟨positive, isMultiple⟩, -, neither, builds⟩ := applies
    refine divides.exact_binaryConst? kinded sum.isFirst isPart (Split.opClass_op kind)
      (fun _ => divides.nonzero) builds fun index number isNumber => ?_
    obtain ⟨left, value, isLeft, isValue, rfl, divided⟩ := reads isNumber
    exact ⟨left, isLeft, Split.onLane_of_apply_add isRemainder divides.nonzero
      (Int.dvd_of_tmod_eq_zero isMultiple)
      (fun _ => (nonneg_of_neitherNegative told neither isLeft isValue).symm) divided⟩

/-! ### The rules -/

/-- What a rule for quotients or remainders makes is exact, if everything that it is told is true. -/
theorem exact_of_rewrites {rule : Rule} (member : rule ∈ quotientRules ++ remainderRules)
    (typed : expr.WellTyped) (kinded : env.Kinded) (told : ∀ question, answers.TrueIn check env question)
    (rewrites : rule.Rewrites answers expr result) : Exact check env expr result := by
  simp only [quotientRules, remainderRules, Rule.pure, List.cons_append, List.nil_append,
    List.mem_cons, List.not_mem_nil, or_false] at member
  rcases member with rfl | rfl | rfl | rfl | rfl | rfl | rfl | rfl | rfl
  · exact exact_divideProduct? typed kinded rewrites
  · exact exact_splitDividend? told typed kinded rewrites
  · exact exact_nestedQuotient? typed kinded rewrites
  · exact exact_modInRange? told typed kinded rewrites
  · exact exact_remainderOfProduct? typed kinded rewrites
  · exact exact_dropMultiple? told typed kinded rewrites
  · exact exact_modularRemainder? told typed kinded rewrites
  · exact exact_nestedRemainder? typed kinded rewrites
  · exact exact_reduceOffset? told typed kinded rewrites

/-- The rules for quotients and remainders are exact. What a rule makes of a well-typed expression has
the value of the expression wherever both have one, provided that the answers to what the rule asked
are true, and it divides by nothing new but constants other than zero. -/
theorem divisionRules_exact {rule : Rule} {asked : Question → Prop}
    (member : rule ∈ quotientRules ++ remainderRules) (typed : expr.WellTyped) (kinded : env.Kinded)
    (rewrites : rule.RewritesAsking asked answers expr result)
    (told : ∀ question, asked question → answers.TrueTo env question) :
    (∀ first second, expr.eval env = some first → result.eval env = some second → first = second) ∧
      ∀ dtype op lhs rhs, IsDivision op → binary dtype op lhs rhs ∈ result.postOrder →
        binary dtype op lhs rhs ∈ expr.postOrder ∨
          ∃ divisor, rhs.asInt? = some divisor ∧ divisor ≠ 0 := by
  obtain ⟨other, isTrue, rewrites⟩ := rewrites.exists_trueIn told
  have exact := exact_of_rewrites member typed kinded isTrue rewrites
  refine ⟨fun first second isFirst isSecond => ?_, exact.guarded⟩
  exact exact.agrees.eq_of_isInteger typed kinded exact.isInteger isFirst isSecond

/-- A truncated quotient is taken apart at a negative multiple of the divisor: `truncdiv(x - 8, 4)` is
`truncdiv(x, 4) - 2` where neither `x` nor `x - 8` is negative. -/
theorem divisionRules_exact_difference :
    let name : Variable := ⟨"x", .int32, false⟩
    let node := binary .int32
    let constant := intConst .int32
    let dividend := node .sub name.expr (constant 8)
    let expr := node .truncDiv dividend (constant 4)
    let result := node .sub (node .truncDiv name.expr (constant 4)) (constant 2)
    let bound (expr : Expr) : Bound :=
      if expr = name.expr then .ofInts 8 100 else if expr = dividend then .ofInts 0 92 else .everything
    let evidence : Evidence := ⟨bound, fun _ => .everything, fun _ => none, []⟩
    let env := Environment.empty.set name (.int 11)
    splitDividend? evidence expr = some result ∧ expr.eval env = some (.int 0) ∧
      (∀ first second, expr.eval env = some first → result.eval env = some second →
        first = second) ∧
      ∀ dtype op lhs rhs, IsDivision op → binary dtype op lhs rhs ∈ result.postOrder →
        binary dtype op lhs rhs ∈ expr.postOrder ∨
          ∃ divisor, rhs.asInt? = some divisor ∧ divisor ≠ 0 := by
  intro name node constant dividend expr result bound evidence env
  let asked : Question → Prop := fun question =>
    question = .bound name.expr ∨ question = .bound dividend
  let answers : Answers := ⟨evidence, fun _ _ => .unknown⟩
  have kinded : env.Kinded :=
    (Environment.typed_empty.set_int rfl (by decide) (by decide)).kinded
  have rewrites : (Rule.plain .splitDivisible splitDividend?).RewritesAsking asked answers expr result := by
    intro other same
    have first : other.evidence.bound name.expr = .ofInts 8 100 := same (.bound name.expr) (.inl rfl)
    have second : other.evidence.bound dividend = .ofInts 0 92 := same (.bound dividend) (.inr rfl)
    show splitDividend? other.evidence expr = some result
    have neither : neitherNegative other.evidence name.expr
        (binary .int32 .sub name.expr (intConst .int32 8)) = true := by
      rw [neitherNegative, first]
      exact congrArg Bound.isNonNegative second
    simp [splitDividend?, splitOffset?, asQuotient?, asBinary?, asInt?, expr, node, dividend, constant,
      neither]
    exact ⟨by decide, _, rfl, _, rfl, rfl⟩
  refine ⟨by decide +kernel, rfl, ?_⟩
  refine divisionRules_exact (by simp [quotientRules]) (by decide) kinded rewrites ?_
  rintro question (rfl | rfl) index number isNumber
  · rw [valueIn_of_evaluate_int (rfl : name.expr.eval env = some (.int 11)) isNumber]
    rfl
  · rw [valueIn_of_evaluate_int (rfl : dividend.eval env = some (.int 3)) isNumber]
    decide

end Reduction.Quotients

end IndexAlgebra
