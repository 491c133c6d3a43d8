/-
This file proves that a comparison keeps its truth when it is brought to its normal form: the
difference of the operands is compared with zero, by `<`, `==` or `!=`, then a common factor of its
coefficients is divided out, and last the terms are put on the side where their coefficients are
positive.
-/
import IndexAlgebra.Proofs.SumDivision

namespace IndexAlgebra

/-- The truth of a comparison of two integers. -/
def BinaryOp.compares (op : BinaryOp) (left right : Int) : Bool :=
  match op with
  | .eq => decide (left = right)
  | .ne => decide (left ≠ right)
  | .lt => decide (left < right)
  | .le => decide (left ≤ right)
  | .gt => decide (left > right)
  | .ge => decide (left ≥ right)
  | _ => false

theorem BinaryOp.compares_sub (op : BinaryOp) (left right : Int) :
    op.compares (left - right) 0 = op.compares left right := by
  cases op <;> simp only [compares, decide_eq_decide] <;> omega

theorem Scalar.binaryInt?_comparison {op : BinaryOp} (comparison : op.opClass = .comparison)
    (check : RangeCheck) (dtype : DataType) (left right : Int) :
    binaryInt? check dtype op left right = some (.bool (op.compares left right)) := by
  cases op <;> first | rfl | cases comparison

variable {names : List Variable} {dtype : DataType} {among : Environment → Prop}

namespace Expr

/-- The expression is a scalar truth value, and the given one in each of the environments. -/
structure Decides (names : List Variable) (among : Environment → Prop)
    (truth : Environment → Bool) (expr : Expr) : Prop where
  within : expr.Within names .bool
  evaluates : ∀ env, among env → expr.evalExact env = some (.bool (truth env))

theorem decides_ofBool {truth : Environment → Bool} {constant : Bool}
    (same : ∀ env, among env → truth env = constant) :
    (ofBool constant).Decides names among truth := by
  refine ⟨⟨by rw [ofBool, WellTyped], rfl, fun name member => ?_⟩, fun env isAmong => ?_⟩
  · rcases mem_binders.mp member with isBinder | ⟨child, isChild, -⟩
    · cases isBinder
    · cases isChild
  · rw [same env isAmong]
    rfl

theorem Stands.compare (index : dtype.IsIndex) {op : BinaryOp} (comparison : op.opClass = .comparison)
    {lhs rhs built : Expr} {left right : Environment → Int}
    (isLeft : lhs.Stands names dtype among left) (isRight : rhs.Stands names dtype among right)
    (builds : binary? op lhs rhs = some built) :
    built.Decides names among fun env => op.compares (left env) (right env) := by
  have leftType := isLeft.within.dtype_eq
  have rightType := isRight.within.dtype_eq
  obtain ⟨rfl, -⟩ := binary?_eq_some (leftType.trans rightType.symm) builds
  have isBool : binaryType op dtype = .bool := by
    rw [binaryType, if_pos (by rw [BinaryOp.isComparison, comparison]; rfl), index.scalar]
    rfl
  have notLogical : op.isLogical = false := by rw [BinaryOp.isLogical, comparison]; rfl
  have within := isLeft.within.binary isRight.within notLogical
  rw [leftType]
  rw [isBool] at within ⊢
  refine ⟨within, fun env isAmong => ?_⟩
  rw [evalExact_binary (isLeft.evaluates env isAmong) (isRight.evaluates env isAmong)
    (leftType ▸ index.isInteger) (rightType ▸ index.isInteger) rfl,
    Scalar.binaryInt?_comparison comparison]

end Expr

namespace SumForm

variable {op op' : BinaryOp} {sum result : SumForm} {value : Environment → Int}

/-- One of the comparisons that a difference is compared with zero by. -/
def IsNormal (op : BinaryOp) : Prop := op = .lt ∨ op = .eq ∨ op = .ne

/-- The comparison with zero is one by `<`, `==` or `!=`, of a difference of the same truth. -/
theorem Stands.normalizeComparison (isSum : sum.Stands names dtype among value)
    (normalizes : normalizeComparison? op sum = some (op', result)) :
    IsNormal op' ∧ ∃ value', result.Stands names dtype among value' ∧
      ∀ env, among env → op.compares (value env) 0 = op'.compares (value' env) 0 := by
  have minusOne : (ofInt sum.dtype (-1)).Stands names dtype among fun _ => -1 :=
    isSum.dtype_eq ▸ stands_ofInt (-1)
  unfold normalizeComparison? at normalizes
  split at normalizes
  next =>
    cases normalizes
    exact ⟨.inl rfl, value, isSum, fun _ _ => rfl⟩
  next =>
    obtain ⟨shifted, isShifted, equal⟩ := Option.bind_eq_some_iff.mp normalizes
    cases equal
    refine ⟨.inl rfl, _, isSum.add minusOne isShifted, fun env _ => ?_⟩
    simp only [BinaryOp.compares, decide_eq_decide]
    omega
  next =>
    obtain ⟨opposite, isOpposite, equal⟩ := Option.bind_eq_some_iff.mp normalizes
    cases equal
    refine ⟨.inl rfl, _, isSum.scale isOpposite, fun env _ => ?_⟩
    simp only [BinaryOp.compares, decide_eq_decide]
    omega
  next =>
    obtain ⟨opposite, isOpposite, normalizes⟩ := Option.bind_eq_some_iff.mp normalizes
    obtain ⟨shifted, isShifted, equal⟩ := Option.bind_eq_some_iff.mp normalizes
    cases equal
    refine ⟨.inl rfl, _, (isSum.scale isOpposite).add minusOne isShifted, fun env _ => ?_⟩
    simp only [BinaryOp.compares, decide_eq_decide]
    omega
  next =>
    cases normalizes
    exact ⟨.inr (.inl rfl), value, isSum, fun _ _ => rfl⟩
  next =>
    cases normalizes
    exact ⟨.inr (.inr rfl), value, isSum, fun _ _ => rfl⟩
  next => cases normalizes

theorem compareConstant_eq (normal : IsNormal op) (constant : Int) :
    compareConstant op constant = op.compares constant 0 := by
  rcases normal with rfl | rfl | rfl
  · rfl
  · exact beq_eq_decide constant 0
  · exact Bool.eq_iff_iff.mpr (by simp [compareConstant, BinaryOp.compares])

section

variable {factor terms constant : Int}

/-- A positive factor of the terms is divided out of `<`, and the constant is rounded down. -/
theorem compares_lt_div (positive : 0 < factor) (divides : factor ∣ terms) :
    BinaryOp.compares .lt (terms + constant) 0 =
      BinaryOp.compares .lt (terms / factor + constant.fdiv factor) 0 := by
  obtain ⟨quotient, rfl⟩ := divides
  rw [Int.mul_ediv_cancel_left quotient positive.ne', Int.fdiv_eq_ediv_of_nonneg _ positive.le]
  have whole := Int.emod_add_mul_ediv constant factor
  have least := Int.emod_nonneg constant positive.ne'
  have greatest := Int.emod_lt_of_pos constant positive
  have distributed := mul_add factor quotient (constant / factor)
  simp only [BinaryOp.compares, decide_eq_decide]
  constructor
  · intro negative
    by_contra nonneg
    have product := mul_nonneg positive.le (not_lt.mp nonneg)
    omega
  · intro negative
    have product := mul_le_mul_of_nonneg_left (Int.le_sub_one_of_lt negative) positive.le
    omega

theorem ne_zero_of_tmod_ne_zero (divides : factor ∣ terms) (rest : constant.tmod factor ≠ 0) :
    terms + constant ≠ 0 := by
  intro zero
  have isOpposite : constant = -terms := by omega
  exact rest (Int.tmod_eq_zero_of_dvd (isOpposite ▸ divides.neg_right))

theorem eq_zero_iff_div (positive : 0 < factor) (divides : factor ∣ terms)
    (noRest : constant.tmod factor = 0) :
    terms + constant = 0 ↔ terms / factor + constant.tdiv factor = 0 := by
  obtain ⟨quotient, rfl⟩ := divides
  obtain ⟨quotient', rfl⟩ := Int.dvd_of_tmod_eq_zero noRest
  rw [Int.mul_ediv_cancel_left quotient positive.ne', Int.mul_tdiv_cancel_left quotient' positive.ne',
    ← mul_add, mul_eq_zero, or_iff_right positive.ne']

end

/-- What a comparison with zero is reduced to by a division: a truth value, or a comparison of
another sum with zero. -/
def Reduces (names : List Variable) (dtype : DataType) (among : Environment → Prop)
    (op : BinaryOp) (value : Environment → Int) : Except Bool SumForm → Prop
  | .error truth => ∀ env, among env → op.compares (value env) 0 = truth
  | .ok result => ∃ value', result.Stands names dtype among value' ∧
      ∀ env, among env → op.compares (value env) 0 = op.compares (value' env) 0

/-- The common factor of the coefficients is divided out of a comparison with zero. -/
theorem Stands.divideContent {divide : Divide} {reduced : Except Bool SumForm}
    (exact : divide.Exact) (normal : IsNormal op) (isSum : sum.Stands names dtype among value)
    (divides : sum.divideContent? divide op = some reduced) :
    Reduces names dtype among op value reduced := by
  dsimp only [divideContent?] at divides
  by_cases small : sum.content ≤ 1
  · rw [if_pos small] at divides
    cases divides
    exact ⟨value, isSum, fun _ _ => rfl⟩
  rw [if_neg small] at divides
  obtain ⟨quotient, isQuotient, divides⟩ := Option.bind_eq_some_iff.mp divides
  have positive : 0 < sum.content := by omega
  have divided := exact _ _ _ isQuotient
  have terms := isSum.withConstant 0
  have multiple := terms.dvd divided
  -- the quotient of the terms has no constant, so that the rounded constant takes its place
  have noConstant : quotient.constant = 0 :=
    (mul_eq_zero.mp divided.constant_eq).resolve_right positive.ne'
  have withConstant (constant : Int) :
      SumForm.Stands names dtype among
        (fun env => (value env - sum.constant + 0) / sum.content + constant)
        { quotient with constant } :=
    ((terms.quotient divided).withConstant constant).congr fun env _ => by
      rw [noConstant, sub_zero]
  have whole (env : Environment) : value env = value env - sum.constant + 0 + sum.constant := by
    omega
  split at divides
  next isLess =>
    cases divides
    refine ⟨_, withConstant _, fun env isAmong => ?_⟩
    rw [isLess]
    nth_rewrite 1 [whole env]
    exact compares_lt_div positive (multiple env isAmong)
  next notLess =>
    split at divides
    next rest =>
      cases divides
      intro env isAmong
      have nonzero := ne_zero_of_tmod_ne_zero (multiple env isAmong) rest
      rw [← whole env] at nonzero
      rcases normal with rfl | rfl | rfl
      · exact absurd rfl notLess
      · exact decide_eq_false nonzero
      · exact decide_eq_true nonzero
    next noRest =>
      cases divides
      refine ⟨_, withConstant _, fun env isAmong => ?_⟩
      have zero := eq_zero_iff_div positive (multiple env isAmong) (not_not.mp noRest)
      rw [← whole env] at zero
      rcases normal with rfl | rfl | rfl
      · exact absurd rfl notLess
      · exact decide_eq_decide.mpr zero
      · exact decide_eq_decide.mpr (not_congr zero)

/-- A comparison of the positive terms with the negative ones and the constant is that of their sum
with zero. -/
theorem Stands.comparisonExpr {built : Expr} (index : dtype.IsIndex) (normal : IsNormal op)
    (isSum : sum.Stands names dtype among value) (builds : sum.comparisonExpr? op = some built) :
    built.Decides names among fun env => op.compares (value env) 0 := by
  obtain ⟨negated, left, right, isNegated, isLeft, isRight, builds⟩ :=
    exists_sides_of_comparisonExpr? builds
  have positive := (isSum.filter _ 0).expr index isLeft
  have negative := ((isSum.filter _ sum.constant).scale isNegated).expr index isRight
  have compared := positive.compare index (by rcases normal with rfl | rfl | rfl <;> rfl) negative
    builds
  refine ⟨compared.within, fun env isAmong => ?_⟩
  rw [compared.evaluates env isAmong, ← (isSum.totals env isAmong).value_eq, ← termsAt_filter_add _
    (fun term => decide (0 < term.2)) sum.terms]
  rcases normal with rfl | rfl | rfl <;>
    simp only [BinaryOp.compares, Option.some.injEq, Value.bool.injEq, decide_eq_decide] <;> omega

/-- The comparison of a difference with zero keeps its truth as an expression. -/
theorem Stands.comparison {divide : Divide} {built : Expr} (index : dtype.IsIndex)
    (exact : divide.Exact) (isSum : sum.Stands names dtype among value)
    (builds : sum.comparison? divide op = some built) :
    built.Decides names among fun env => op.compares (value env) 0 := by
  obtain ⟨⟨op', difference⟩, normalizes, builds⟩ := Option.bind_eq_some_iff.mp builds
  obtain ⟨normal, value', stands, same⟩ := isSum.normalizeComparison normalizes
  have decides : built.Decides names among fun env => op'.compares (value' env) 0 := by
    dsimp only at builds
    split at builds
    next constant isConst =>
      cases builds
      refine Expr.decides_ofBool fun env isAmong => ?_
      rw [compareConstant_eq normal, (stands.totals env isAmong).eq_of_asConst? isConst]
    next =>
      obtain ⟨reduced, isReduced, builds⟩ := Option.bind_eq_some_iff.mp builds
      have reduces := stands.divideContent exact normal isReduced
      cases reduced with
      | error truth =>
        cases builds
        exact Expr.decides_ofBool reduces
      | ok result =>
        obtain ⟨value'', isResult, same'⟩ := reduces
        have decides := isResult.comparisonExpr index normal builds
        exact ⟨decides.within, fun env isAmong => same' env isAmong ▸ decides.evaluates env isAmong⟩
  exact ⟨decides.within, fun env isAmong => same env isAmong ▸ decides.evaluates env isAmong⟩

end SumForm

end IndexAlgebra
