/-
This file proves that the rules for comparisons make expressions that stand for the ones they replace.
The sides of a comparison are lighter than it, so that a constant that moves to the other side leaves
something lighter behind.
-/
import IndexAlgebra.Proofs.Fits.Sums
import IndexAlgebra.Reduction.Comparisons

namespace IndexAlgebra.Reduction.Comparisons

open IndexAlgebra.Expr

attribute [local simp] Option.bind_eq_some_iff Option.guard_eq_some'

variable {dtype : DataType} {op : BinaryOp} {lhs rhs result : Expr}

/-! ### Comparisons -/

theorem plain_of_isComparison (isComparison : op.isComparison = true) :
    op.isLogical = false ∧ op ≠ .mul := by
  cases op <;> simp_all [BinaryOp.isLogical, BinaryOp.isComparison, BinaryOp.opClass]

theorem isInert_of_isComparison (isComparison : op.isComparison = true) (lhs rhs : Expr) :
    isInert op lhs rhs = false :=
  isInert_of_ne (plain_of_isComparison isComparison).2 lhs rhs

theorem asIntComparison?_eq_some {expr : Expr} (found : asIntComparison? expr = some (op, lhs, rhs)) :
    op.isComparison = true ∧ ∃ dtype, expr = binary dtype op lhs rhs := by
  simp [asIntComparison?] at found
  exact ⟨found.2.1, found.1⟩

/-- A part of the left side of a comparison is lighter than the comparison. -/
theorem beneath_left {part : Expr} (isComparison : op.isComparison = true)
    (stands : part.StandsFor lhs) : Beneath op part (binary dtype op lhs rhs) :=
  stands.beneath (beneath_lhs rfl (isInert_of_isComparison isComparison _ _))

/-- A part of the right side of a comparison is lighter than the comparison. -/
theorem beneath_right {part : Expr} (isComparison : op.isComparison = true)
    (stands : part.StandsFor rhs) : Beneath op part (binary dtype op lhs rhs) :=
  stands.beneath (beneath_rhs rfl (isInert_of_isComparison isComparison _ _))

/-! ### Normal form -/

/-- The comparison of the terms of a difference stands for the comparison of the difference. -/
theorem standsFor_compareTerms {innerType : DataType} {x y : Expr}
    (isComparison : op.isComparison = true)
    (side : lhs = binary innerType .sub x y ∨ rhs = binary innerType .sub x y)
    (builds : binary? op x y = some result ∨ binary? op y x = some result) :
    result.StandsFor (binary dtype op lhs rhs) := by
  have light : ∀ sizes, result.load sizes ≤ (binary innerType .sub x y).load sizes := by
    intro sizes
    rw [load_binary_eq sizes (isInert_of_ne (by decide) x y),
      ← combined_congr (plain_of_isComparison isComparison).1]
    rcases builds with builds | builds
    · exact load_binary? sizes builds
    · exact (load_binary? sizes builds).trans (combined_comm ..).le
  have typedParts : ∀ type, (binary innerType .sub x y).HasType type →
      result.HasType (binaryType op type) := by
    intro type typed
    have isX := (standsFor_lhs rfl).typed type typed
    have isY := (standsFor_rhs rfl).typed type typed
    rcases builds with builds | builds
    · exact isX.binary? isY builds
    · exact isY.binary? isX builds
  refine ⟨fun sizes => (light sizes).trans ?_, fun type typed => ?_⟩
  · rcases side with rfl | rfl
    · exact load_lhs_le ..
    · exact load_rhs_le ..
  · obtain ⟨operand, left, right, -, -, rfl⟩ := hasType_binary.mp typed
    rcases side with rfl | rfl
    · exact typedParts operand left
    · exact typedParts operand right

theorem standsFor_compareDifference {expr : Expr}
    (applies : compareDifference? expr = some result) : result.StandsFor expr := by
  simp [compareDifference?] at applies
  obtain ⟨op, lhs, rhs, found, applies⟩ := applies
  obtain ⟨isComparison, dtype, rfl⟩ := asIntComparison?_eq_some found
  split at applies
  · simp at applies
    obtain ⟨x, y, ⟨innerType, rfl⟩, builds⟩ := applies
    exact standsFor_compareTerms isComparison (.inl rfl) (.inl builds)
  · simp at applies
    obtain ⟨-, x, y, ⟨innerType, rfl⟩, builds⟩ := applies
    exact standsFor_compareTerms isComparison (.inr rfl) (.inr builds)

theorem standsFor_normalize {expr : Expr} (applies : normalize? expr = some result) :
    result.StandsFor expr := by
  simp [normalize?] at applies
  obtain ⟨op, lhs, rhs, ⟨dtype, rfl⟩, applies⟩ := applies
  split at applies
  · exact (StandsFor.refl lhs).combine_swap (.refl rhs) (by rfl) (by rfl)
      (isInert_of_ne (by decide) _ _) applies
  · exact (StandsFor.refl lhs).combine_swap (.refl rhs) (by rfl) (by rfl)
      (isInert_of_ne (by decide) _ _) applies
  · simp at applies
    obtain ⟨-, value, -, constant, isConstant, builds⟩ := applies
    exact (StandsFor.refl lhs).combine (standsFor_constantLike? isConstant) (by rfl) (by rfl)
      (isInert_of_ne (by decide) _ _) builds
  · simp at applies
    obtain ⟨-, value, -, constant, isConstant, builds⟩ := applies
    exact (standsFor_constantLike? isConstant).combine (.refl rhs) (by rfl) (by rfl)
      (isInert_of_ne (by decide) _ _) builds
  · cases applies

theorem standsFor_boolEquality {expr : Expr} (applies : boolEquality? expr = some result) :
    result.StandsFor expr := by
  simp [boolEquality?] at applies
  obtain ⟨op, lhs, rhs, ⟨dtype, rfl⟩, applies⟩ := applies
  obtain ⟨isComparison, ⟨constType, value, rfl⟩, built⟩ : op.isComparison = true ∧
      (∃ constType value, rhs = boolConst constType value) ∧
      (result = lhs ∨ not? lhs = some result) := by
    rcases applies with ⟨⟨constType, rfl⟩, isEquality, built⟩ | ⟨⟨constType, rfl⟩, isEquality, built⟩ <;>
      rcases isEquality with rfl | rfl <;> simp at built <;> simp [built, BinaryOp.isComparison, BinaryOp.opClass]
  have isTruth : ∀ type, (binary dtype op lhs (boolConst constType value)).HasType type →
      lhs.HasType type := by
    intro type typed
    obtain ⟨operand, left, ⟨right, rfl⟩, -, -, rfl⟩ := hasType_binary.mp typed
    rw [Coherent] at right
    rw [binaryType, if_pos isComparison, Expr.dtype, right]
    rwa [Expr.dtype, right] at left
  have beneath : Beneath op lhs (binary dtype op lhs (boolConst constType value)) :=
    beneath_left isComparison (.refl lhs)
  rcases built with rfl | built
  · exact ⟨fun sizes => (beneath.lighter sizes).le, isTruth⟩
  · refine ⟨fun sizes => ?_, fun type typed => (isTruth type typed).not? built⟩
    obtain ⟨-, rfl⟩ := not?_eq_some built
    exact beneath.lighter sizes

/-! ### Known order -/

theorem standsFor_knownComparison {relation : Relation} {expr : Expr}
    (applies : knownComparison? relation expr = some result) : result.StandsFor expr := by
  simp [knownComparison?] at applies
  obtain ⟨-, -, ⟨-, rfl⟩ | ⟨-, rfl⟩⟩ := applies <;> exact standsFor_ofInt expr _

/-! ### Constants -/

theorem standsFor_moveLeftConstant {value : Int} (isComparison : op.isComparison = true)
    (applies : moveLeftConstant? op lhs value = some result) :
    result.StandsFor (binary dtype op lhs rhs) := by
  simp [moveLeftConstant?] at applies
  obtain ⟨sumOp, a, b, ⟨sumType, rfl⟩, builds⟩ := applies
  split at builds
  · exact (beneath_left isComparison (standsFor_lhs rfl)).binaryConst builds
  · exact (beneath_left isComparison (standsFor_lhs rfl)).binaryConst builds
  · split at builds
    · exact (beneath_left isComparison (standsFor_rhs rfl)).binaryConst builds
    · exact (beneath_left isComparison (standsFor_rhs rfl)).constBinary builds
  · cases builds

theorem standsFor_moveRightConstant {value : Int} (isComparison : op.isComparison = true)
    (applies : moveRightConstant? op value rhs = some result) :
    result.StandsFor (binary dtype op lhs rhs) := by
  simp [moveRightConstant?] at applies
  obtain ⟨sumOp, a, b, ⟨sumType, rfl⟩, builds⟩ := applies
  split at builds
  · exact (beneath_right isComparison (standsFor_lhs rfl)).constBinary builds
  · exact (beneath_right isComparison (standsFor_lhs rfl)).constBinary builds
  · exact (beneath_right isComparison (standsFor_rhs rfl)).binaryConst builds
  · cases builds

theorem standsFor_moveConstant {expr : Expr} (applies : moveConstant? expr = some result) :
    result.StandsFor expr := by
  simp [moveConstant?] at applies
  obtain ⟨op, lhs, rhs, found, applies⟩ := applies
  obtain ⟨isComparison, dtype, rfl⟩ := asIntComparison?_eq_some found
  split at applies
  · exact standsFor_moveLeftConstant isComparison applies
  · exact standsFor_moveRightConstant isComparison applies
  · cases applies

theorem standsFor_divideLeft {value : Int} (isComparison : op.isComparison = true)
    (applies : divideLeft? dtype op lhs value = some result) :
    result.StandsFor (binary dtype op lhs rhs) := by
  simp [divideLeft?] at applies
  obtain ⟨x, factor, ⟨productType, constType, rfl⟩, -, applies⟩ := applies
  have term : Beneath op x
      (binary dtype op (binary productType .mul x (intConst constType factor)) rhs) :=
    beneath_left isComparison (standsFor_lhs rfl)
  have truth : ∀ value, (ofInt dtype value).StandsFor
      (binary dtype op (binary productType .mul x (intConst constType factor)) rhs) :=
    standsFor_ofInt (binary dtype op _ rhs)
  split at applies
  · split at applies
    · exact term.binaryConst applies
    · exact term.constBinary applies
  · split at applies
    · exact term.binaryConst applies
    · cases applies
      exact truth _
  · split at applies
    · exact term.binaryConst applies
    · cases applies
      exact truth _
  · cases applies

theorem standsFor_divideRight {value : Int} (isComparison : op.isComparison = true)
    (applies : divideRight? op value rhs = some result) :
    result.StandsFor (binary dtype op lhs rhs) := by
  simp [divideRight?] at applies
  obtain ⟨x, factor, ⟨productType, constType, rfl⟩, -, applies⟩ := applies
  have term : Beneath op x
      (binary dtype op lhs (binary productType .mul x (intConst constType factor))) :=
    beneath_right isComparison (standsFor_lhs rfl)
  split at applies
  · exact term.constBinary applies
  · exact term.binaryConst applies

theorem standsFor_divideComparison {expr : Expr} (applies : divideComparison? expr = some result) :
    result.StandsFor expr := by
  simp [divideComparison?] at applies
  obtain ⟨op, lhs, rhs, found, applies⟩ := applies
  obtain ⟨isComparison, dtype, rfl⟩ := asIntComparison?_eq_some found
  split at applies
  · exact standsFor_divideLeft isComparison applies
  · exact standsFor_divideRight isComparison applies
  · cases applies

/-! ### Common terms -/

theorem standsFor_cancelled {left right : Expr} (isComparison : op.isComparison = true)
    (found : cancelled? op lhs rhs = some (left, right))
    (builds : binary? op left right = some result) : result.StandsFor (binary dtype op lhs rhs) := by
  have plain := isInert_of_isComparison isComparison lhs rhs
  obtain ⟨notLogical, notProduct⟩ := plain_of_isComparison isComparison
  unfold cancelled? at found
  dsimp only at found
  split at found
  next a b isLeft isRight =>
    obtain ⟨x, y⟩ := a
    obtain ⟨z, w⟩ := b
    obtain ⟨leftType, rfl⟩ := operands?_eq_some.mp isLeft
    obtain ⟨rightType, rfl⟩ := operands?_eq_some.mp isRight
    obtain ⟨isX, isY⟩ : left.StandsFor (binary leftType .add x y) ∧
        right.StandsFor (binary rightType .add z w) := Sums.standsFor_withoutShared rfl found
    exact isX.combine isY rfl rfl plain builds
  split at found
  next a b c d isLeft isRight =>
    obtain ⟨leftType, rfl⟩ := operands?_eq_some.mp isLeft
    obtain ⟨rightType, rfl⟩ := operands?_eq_some.mp isRight
    split at found
    · cases found
      exact (standsFor_rhs rfl).combine_swap (standsFor_rhs rfl) rfl rfl plain builds
    · obtain ⟨-, equal⟩ := Option.ite_none_right_eq_some.mp found
      cases equal
      exact (standsFor_lhs rfl).combine (standsFor_lhs rfl) rfl rfl plain builds
  split at found
  next x c y d isLeft isRight =>
    obtain ⟨leftType, leftConst, rfl⟩ := withConst?_eq_some.mp isLeft
    obtain ⟨rightType, rightConst, rfl⟩ := withConst?_eq_some.mp isRight
    obtain ⟨-, found⟩ := Option.ite_none_left_eq_some.mp found
    split at found <;> cases found
    · exact (standsFor_lhs rfl).combine (standsFor_lhs rfl) rfl rfl plain builds
    · exact (standsFor_lhs rfl).combine_swap (standsFor_lhs rfl) rfl rfl plain builds
  split at found
  next =>
    simp at found
    obtain ⟨other, zero⟩ := found
    exact standsFor_besideZero notLogical notProduct (.inl (Sums.standsFor_otherOperand rfl other)) zero
      (.inr builds)
  split at found
  next =>
    simp at found
    obtain ⟨other, zero⟩ := found
    exact standsFor_besideZero notLogical notProduct (.inr (Sums.standsFor_otherOperand rfl other)) zero
      (.inl builds)
  split at found
  next a b isLeft =>
    obtain ⟨leftType, rfl⟩ := operands?_eq_some.mp isLeft
    simp at found
    obtain ⟨-, zero, rfl⟩ := found
    exact standsFor_besideZero notLogical notProduct (.inl (standsFor_rhs rfl)) zero (.inl builds)
  next a b _ isRight =>
    obtain ⟨rightType, rfl⟩ := operands?_eq_some.mp isRight
    simp at found
    obtain ⟨-, zero, rfl⟩ := found
    exact standsFor_besideZero notLogical notProduct (.inr (standsFor_rhs rfl)) zero (.inr builds)
  next => cases found

theorem standsFor_cancelComparison {expr : Expr} (applies : cancelComparison? expr = some result) :
    result.StandsFor expr := by
  simp [cancelComparison?] at applies
  obtain ⟨op, lhs, rhs, found, left, right, cancels, builds⟩ := applies
  obtain ⟨isComparison, dtype, rfl⟩ := asIntComparison?_eq_some found
  exact standsFor_cancelled isComparison cancels builds

/-! ### Divisions -/

theorem beneath_of_againstConst? {expr term : Expr} {value : Int}
    (found : againstConst? expr = some (op, term, value)) : Beneath op term expr := by
  simp [againstConst?] at found
  obtain ⟨op', lhs, rhs, ⟨dtype, rfl⟩, found⟩ := found
  split at found
  · obtain ⟨constant, -, equal⟩ := Option.bind_eq_some_iff.mp found
    cases equal
    exact beneath_left rfl (.refl _)
  · obtain ⟨constant, -, equal⟩ := Option.bind_eq_some_iff.mp found
    cases equal
    exact beneath_right rfl (.refl _)
  · cases found

theorem standsFor_normalForm {expr term : Expr} {value : Int} (beneath : Beneath op term expr)
    (builds : normalForm? op term value = some result) : result.StandsFor expr := by
  unfold normalForm? at builds
  split at builds
  · exact beneath.binaryConst builds
  · exact beneath.constBinary builds

theorem standsFor_dropRemainder {evidence : Evidence} {expr : Expr}
    (applies : dropRemainder? evidence expr = some result) : result.StandsFor expr := by
  simp [dropRemainder?] at applies
  obtain ⟨op, value, a, b, sumType, found, applies⟩ := applies
  have sum := beneath_of_againstConst? found
  split at applies
  next term isProduct =>
    obtain ⟨x, factor⟩ := term
    obtain ⟨productType, constType, rfl⟩ := withConst?_eq_some.mp isProduct
    simp at applies
    obtain ⟨-, -, -, -, -, builds⟩ := applies
    exact standsFor_normalForm (((standsFor_lhs rfl).trans (standsFor_lhs rfl)).beneath sum) builds
  next =>
    simp at applies
    obtain ⟨x, factor, ⟨productType, constType, rfl⟩, -, -, -, -, -, builds⟩ := applies
    exact standsFor_normalForm (((standsFor_lhs rfl).trans (standsFor_rhs rfl)).beneath sum) builds

theorem standsFor_compareFloorDiv {expr : Expr} (applies : compareFloorDiv? expr = some result) :
    result.StandsFor expr := by
  simp [compareFloorDiv?] at applies
  obtain ⟨op, value, x, divisor, ⟨quotientType, constType, found⟩, -, builds⟩ := applies
  exact standsFor_normalForm ((standsFor_lhs rfl).beneath (beneath_of_againstConst? found)) builds

/-- Every rule for comparisons fits every expression. -/
theorem rules_fit (evidence : Evidence) (expr : Expr) :
    ∀ rule ∈ rules, rule.Fits evidence expr := by
  simp only [rules, List.forall_mem_cons, Rule.pure, Rule.Fits]
  refine ⟨fun _ => standsFor_compareDifference, fun _ => standsFor_normalize,
    fun _ => standsFor_boolEquality,
    ⟨fun lhs rhs difference operands builds => ?_, fun _ _ => standsFor_knownComparison⟩,
    fun _ => standsFor_moveConstant, fun _ => standsFor_divideComparison,
    fun _ => standsFor_cancelComparison, fun _ => standsFor_dropRemainder,
    fun _ => standsFor_compareFloorDiv, by simp⟩
  simp [comparisonOperands?] at operands
  obtain ⟨op, found⟩ := operands
  obtain ⟨isComparison, dtype, rfl⟩ := asIntComparison?_eq_some found
  obtain ⟨notLogical, notProduct⟩ := plain_of_isComparison isComparison
  exact load_difference_le notLogical notProduct builds

end IndexAlgebra.Reduction.Comparisons
