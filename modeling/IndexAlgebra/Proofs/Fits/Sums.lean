/-
This file proves that the rules for sums, differences and products of integers make expressions that
stand for the ones they replace. A term that is taken out of an operand is lighter than the node, so
that a constant may be put beside it.
-/
import IndexAlgebra.Proofs.StandsFor
import IndexAlgebra.Reduction.Sums

namespace IndexAlgebra.Reduction.Sums

open IndexAlgebra.Expr

attribute [local simp] Option.bind_eq_some_iff Option.guard_eq_some'

variable {dtype : DataType} {op outer : BinaryOp}

/-! ### Terms -/

theorem splitConstant?_eq_some {expr term constant : Expr}
    (found : splitConstant? expr = some (op, term, constant)) :
    (op = .add ∨ op = .sub) ∧ ∃ dtype, expr = binary dtype op term constant := by
  simp [splitConstant?] at found
  exact ⟨found.2.1.1, found.1⟩

theorem standsFor_splitCoefficient (expr : Expr) : (splitCoefficient expr).1.StandsFor expr := by
  unfold splitCoefficient
  cases found : expr.withConst? .mul with
  | none => exact .refl expr
  | some parts =>
    obtain ⟨type, constType, rfl⟩ := withConst?_eq_some.mp found
    exact standsFor_lhs rfl

theorem isComparison_opposite (op : BinaryOp) : (opposite op).isComparison = false := by
  unfold opposite
  split <;> rfl

theorem standsFor_otherOperand {expr term other : Expr} (notComparison : op.isComparison = false)
    (found : otherOperand? expr op term = some other) : other.StandsFor expr := by
  simp [otherOperand?] at found
  obtain ⟨lhs, rhs, ⟨type, rfl⟩, found⟩ := found
  split at found
  · cases found
    exact standsFor_rhs notComparison
  · obtain ⟨-, equal⟩ := Option.ite_none_right_eq_some.mp found
    cases equal
    exact standsFor_lhs notComparison

theorem standsFor_withoutShared {firstType secondType : DataType} {a b c d x y : Expr}
    (notComparison : op.isComparison = false) (found : withoutShared? (a, b) (c, d) = some (x, y)) :
    x.StandsFor (binary firstType op a b) ∧ y.StandsFor (binary secondType op c d) := by
  simp only [withoutShared?] at found
  split at found
  · cases found
    exact ⟨standsFor_rhs notComparison, standsFor_rhs notComparison⟩
  split at found
  · cases found
    exact ⟨standsFor_rhs notComparison, standsFor_lhs notComparison⟩
  split at found
  · cases found
    exact ⟨standsFor_lhs notComparison, standsFor_rhs notComparison⟩
  split at found
  · cases found
    exact ⟨standsFor_lhs notComparison, standsFor_lhs notComparison⟩
  · cases found

/-! ### Rules for sums and differences alike -/

theorem standsFor_negativeConstant {expr result : Expr} (notComparison : op.isComparison = false)
    (applies : negativeConstant? op expr = some result) : result.StandsFor expr := by
  simp [negativeConstant?] at applies
  obtain ⟨term, value, ⟨type, constType, rfl⟩, -, builds⟩ := applies
  have sameKind := (isComparison_opposite op).trans notComparison.symm
  exact (beneath_lhs sameKind (isInert_intConst_right ..)).binaryConst builds

theorem standsFor_factorTerms {expr result : Expr} (notComparison : op.isComparison = false)
    (notProduct : op ≠ .mul) (applies : factorTerms? op expr = some result) :
    result.StandsFor expr := by
  simp [factorTerms?] at applies
  obtain ⟨lhs, rhs, ⟨type, rfl⟩, -, builds⟩ := applies
  have operand : Beneath .mul lhs (binary type op lhs rhs) :=
    beneath_lhs notComparison.symm (isInert_of_ne notProduct lhs rhs)
  exact ((standsFor_splitCoefficient lhs).beneath operand).binaryConst builds

/-- The choice of two sums is no heavier than the sum of two choices. -/
theorem max_distributed_le {a b d e onTrue onFalse : Nat} (cond : Nat)
    (lightTrue : onTrue ≤ max a 1 + max d 1) (lightFalse : onFalse ≤ max b 1 + max e 1) :
    max 1 (max cond (max onTrue onFalse)) ≤
      max 1 (max cond (max a b)) + max 1 (max cond (max d e)) := by
  have ofLeft : max a 1 ≤ max 1 (max cond (max a b)) ∧ max b 1 ≤ max 1 (max cond (max a b)) := by
    omega
  have ofRight : max d 1 ≤ max 1 (max cond (max d e)) ∧ max e 1 ≤ max 1 (max cond (max d e)) := by
    omega
  have ofCond : max 1 cond ≤ max 1 (max cond (max a b)) := by omega
  generalize max 1 (max cond (max a b)) = left at *
  generalize max 1 (max cond (max d e)) = right at *
  omega

theorem standsFor_distributeSelect {expr result : Expr}
    (applies : distributeSelect? expr = some result) : result.StandsFor expr := by
  simp [distributeSelect?] at applies
  obtain ⟨op, lhs, rhs, ⟨type, rfl⟩, isSum, applies⟩ := applies
  obtain ⟨notProduct, notLogical, notComparison⟩ :
      op ≠ .mul ∧ op.isLogical = false ∧ op.isComparison = false := by
    rcases isSum with rfl | rfl <;> decide
  split at applies
  next firstType cond a b secondType cond' d e =>
    simp at applies
    obtain ⟨rfl, onTrue, buildsTrue, onFalse, buildsFalse, builds⟩ := applies
    refine ⟨fun sizes => ?_, fun type typed => ?_⟩
    · have built := load_select? sizes builds
      have lightTrue := (load_binary? sizes buildsTrue).trans (combined_le op _ _)
      have lightFalse := (load_binary? sizes buildsFalse).trans (combined_le op _ _)
      rw [load_binary_eq sizes (isInert_of_ne notProduct _ _), load, load, combined,
        if_neg (by omega), if_neg (by simp [notLogical])]
      have distributed := max_distributed_le (cond.load sizes) lightTrue lightFalse
      exact built.trans ((Nat.add_le_add_right distributed 1).trans (by omega))
    · obtain ⟨operand, left, right, -, -, rfl⟩ := hasType_binary.mp typed
      obtain ⟨isCond, isA, isB⟩ := hasType_select left
      obtain ⟨-, isD, isE⟩ := hasType_select right
      rw [binaryType, if_neg (by simp [notComparison])]
      exact HasType.select? isCond (isA.arithmetic isD notComparison buildsTrue)
        (isB.arithmetic isE notComparison buildsFalse) builds
  next => cases applies

/-! ### Sums -/

theorem standsFor_collectInSum {expr result : Expr} (applies : collectInSum? expr = some result) :
    result.StandsFor expr := by
  simp [collectInSum?] at applies
  obtain ⟨c, op, a, b, ⟨innerType, type, constType, rfl⟩, builds⟩ := applies
  split at builds
  · exact ((standsFor_lhs rfl).beneath (beneath_lhs rfl (isInert_intConst_right ..))).binaryConst builds
  · exact ((standsFor_lhs rfl).beneath (beneath_lhs rfl (isInert_intConst_right ..))).binaryConst builds
  · exact ((standsFor_rhs rfl).beneath
      (beneath_lhs (by rfl) (isInert_intConst_right ..))).constBinary builds
  · cases builds

theorem standsFor_addSelf {expr result : Expr} (applies : addSelf? expr = some result) :
    result.StandsFor expr := by
  simp [addSelf?] at applies
  obtain ⟨operand, ⟨type, rfl⟩, builds⟩ := applies
  exact (beneath_lhs (by rfl) (isInert_of_ne (by decide) _ _)).binaryConst builds

theorem standsFor_cancelInSum {expr result : Expr} (applies : cancelInSum? expr = some result) :
    result.StandsFor expr := by
  simp [cancelInSum?] at applies
  obtain ⟨lhs, rhs, ⟨type, rfl⟩, ⟨innerType, rfl⟩ | ⟨-, innerType, rfl⟩⟩ := applies
  · exact (standsFor_lhs rfl).trans (standsFor_lhs rfl)
  · exact (standsFor_lhs rfl).trans (standsFor_rhs rfl)

theorem standsFor_reassembled {product remainder result : Expr}
    (found : reassembled? product remainder = some result) : result.StandsFor product := by
  simp [reassembled?] at found
  obtain ⟨factor, division, x, divisor, innerType, ⟨type, rfl⟩, found⟩ := found
  have dividend : division.isComparison = false →
      x.StandsFor (binary type .mul (binary innerType division x divisor) factor) :=
    fun notComparison => (standsFor_lhs notComparison).trans (standsFor_lhs rfl)
  split at found
  · simp at found
    obtain ⟨-, -, -, -, rfl⟩ := found
    exact dividend rfl
  · simp at found
    obtain ⟨-, -, -, -, rfl⟩ := found
    exact dividend rfl
  · cases found

theorem standsFor_reassemble {expr result : Expr} (applies : reassemble? expr = some result) :
    result.StandsFor expr := by
  simp [reassemble?] at applies
  obtain ⟨lhs, rhs, ⟨type, rfl⟩, found | ⟨-, found⟩⟩ := applies
  · exact (standsFor_reassembled found).trans (standsFor_lhs rfl)
  · exact (standsFor_reassembled found).trans (standsFor_rhs rfl)

theorem standsFor_minPlusMax {expr result : Expr} (applies : minPlusMax? expr = some result) :
    result.StandsFor expr := by
  simp [minPlusMax?] at applies
  obtain ⟨lhs, rhs, ⟨type, rfl⟩, applies⟩ := applies
  -- Each of two terms is an operand of the smaller of them, and of the greater.
  have operand : ∀ {a b c d : Expr} (minType maxType : DataType), a = c ∧ b = d ∨ a = d ∧ b = c →
      (∀ term, term = a ∨ term = b → term.StandsFor (binary minType .min a b) ∧
        term.StandsFor (binary maxType .max c d)) := by
    rintro a b c d minType maxType (⟨rfl, rfl⟩ | ⟨rfl, rfl⟩) term (rfl | rfl) <;>
      exact ⟨by first | exact standsFor_lhs rfl | exact standsFor_rhs rfl,
        by first | exact standsFor_lhs rfl | exact standsFor_rhs rfl⟩
  have plain : isInert .add lhs rhs = false := isInert_of_ne (by decide) _ _
  split at applies
  next least greatest isMin isMax =>
    obtain ⟨a, b⟩ := least
    obtain ⟨c, d⟩ := greatest
    obtain ⟨minType, rfl⟩ := operands?_eq_some.mp isMin
    obtain ⟨maxType, rfl⟩ := operands?_eq_some.mp isMax
    simp at applies
    obtain ⟨same, builds⟩ := applies
    exact (operand minType maxType same a (.inl rfl)).1.combine
      (operand minType maxType same b (.inr rfl)).2 rfl rfl plain builds
  next =>
    simp at applies
    obtain ⟨a, b, c, d, ⟨⟨minType, rfl⟩, maxType, rfl⟩, same, builds⟩ := applies
    exact (operand minType maxType same a (.inl rfl)).2.combine
      (operand minType maxType same b (.inr rfl)).1 rfl rfl plain builds

/-- A sum or a difference of a term and a constant is one heavier than the term. -/
theorem splitConstant?_parts {inner : BinaryOp} {expr term constant : Expr}
    (found : splitConstant? expr = some (inner, term, constant)) :
    (∀ sizes, 1 ≤ term.load sizes ∧ constant.load sizes ≤ 1 ∧
      expr.load sizes = term.load sizes + 1) ∧
    ∀ type, expr.HasType type → term.HasType type ∧ constant.HasType type := by
  simp [splitConstant?, Option.isSome_iff_exists] at found
  obtain ⟨⟨type, rfl⟩, ⟨isSum, value, constType, rfl⟩, notConst⟩ := found
  have notComparison : inner.isComparison = false := by rcases isSum with rfl | rfl <;> rfl
  have notLogical : inner.isLogical = false := by rcases isSum with rfl | rfl <;> rfl
  refine ⟨fun sizes => ?_, fun type typed => ?_⟩
  · have heavy := load_pos_of_not_isConst sizes notConst
    have light := load_intConst_le sizes constType value
    rw [load_binary_eq sizes (isInert_intConst_right ..), combined, if_neg (by omega),
      if_neg (by simp [notLogical])]
    omega
  · obtain ⟨operand, left, right, -, -, rfl⟩ := hasType_binary.mp typed
    rw [binaryType, if_neg (by simp [notComparison])]
    exact ⟨left, right⟩

/-- A constant moves out of an operand of a sum or a difference: the term that it stood beside is
combined with the other operand first. -/
theorem standsFor_moveOut {inner : BinaryOp}
    {lhs rhs whole term constant rest moved result : Expr} (isSum : op = .add ∨ op = .sub)
    (notComparison : outer.isComparison = false)
    (split : splitConstant? whole = some (inner, term, constant)) (notConst : rest.isConst = false)
    (moves : lhs = whole ∧ rhs = rest ∧ binary? op term rest = some moved ∨
      lhs = rest ∧ rhs = whole ∧ binary? op rest term = some moved)
    (builds : binary? outer moved constant = some result) :
    result.StandsFor (binary dtype op lhs rhs) := by
  obtain ⟨notProduct, notLogical, isArithmetic⟩ :
      op ≠ .mul ∧ op.isLogical = false ∧ op.isComparison = false := by
    rcases isSum with rfl | rfl <;> decide
  obtain ⟨weighs, parts⟩ := splitConstant?_parts split
  refine standsFor_beside_constant notComparison (fun sizes => ?_) (fun sizes => (weighs sizes).2.1)
    (fun type typed => ?_) builds
  · have heavy := load_pos_of_not_isConst sizes notConst
    have sum := weighs sizes
    rw [load_binary_eq sizes (isInert_of_ne notProduct lhs rhs)]
    rcases moves with ⟨rfl, rfl, moves⟩ | ⟨rfl, rfl, moves⟩ <;>
    · have built := (load_binary? sizes moves).trans (combined_le op _ _)
      rw [combined, if_neg (by omega), if_neg (by simp [notLogical])]
      omega
  · obtain ⟨operand, left, right, -, -, rfl⟩ := hasType_binary.mp typed
    rw [binaryType, if_neg (by simp [isArithmetic])]
    rcases moves with ⟨rfl, rfl, moves⟩ | ⟨rfl, rfl, moves⟩
    · obtain ⟨isTerm, isConstant⟩ := parts operand left
      exact ⟨isTerm.arithmetic right isArithmetic moves, isConstant⟩
    · obtain ⟨isTerm, isConstant⟩ := parts operand right
      exact ⟨left.arithmetic isTerm isArithmetic moves, isConstant⟩

theorem isComparison_of_splitConstant? {inner : BinaryOp} {expr term constant : Expr}
    (found : splitConstant? expr = some (inner, term, constant)) : inner.isComparison = false := by
  obtain ⟨rfl | rfl, -⟩ := splitConstant?_eq_some found <;> rfl

theorem standsFor_moveOutOfSum {expr result : Expr}
    (applies : moveOutOfSum? expr = some result) : result.StandsFor expr := by
  simp [moveOutOfSum?] at applies
  obtain ⟨lhs, rhs, ⟨type, rfl⟩, ⟨leftVaries, rightVaries⟩, applies⟩ := applies
  split at applies
  next split =>
    obtain ⟨moved, moves, builds⟩ := Option.bind_eq_some_iff.mp applies
    exact standsFor_moveOut (.inl rfl) (isComparison_of_splitConstant? split) split rightVaries
      (.inl ⟨rfl, rfl, moves⟩) builds
  next split =>
    obtain ⟨moved, moves, builds⟩ := Option.bind_eq_some_iff.mp applies
    exact standsFor_moveOut (.inl rfl) (isComparison_of_splitConstant? split) split leftVaries
      (.inr ⟨rfl, rfl, moves⟩) builds
  next => cases applies

/-- Every rule for sums fits every expression. -/
theorem sumRules_fit (evidence : Evidence) (expr : Expr) :
    ∀ rule ∈ sumRules, rule.Fits evidence expr := by
  simp only [sumRules, List.forall_mem_cons, Rule.pure, Rule.Fits]
  exact ⟨fun _ => standsFor_negativeConstant rfl, fun _ => standsFor_collectInSum,
    fun _ => standsFor_cancelInSum, fun _ => standsFor_addSelf,
    fun _ => standsFor_factorTerms rfl (by decide), fun _ => standsFor_reassemble,
    fun _ => standsFor_minPlusMax, fun _ => standsFor_distributeSelect,
    fun _ => standsFor_moveOutOfSum, by simp⟩

/-! ### Differences -/

theorem standsFor_collectInDifference {expr result : Expr}
    (applies : collectInDifference? expr = some result) : result.StandsFor expr := by
  simp [collectInDifference?] at applies
  obtain ⟨lhs, rhs, ⟨type, rfl⟩, applies⟩ := applies
  split at applies
  next value isConst =>
    obtain ⟨constType, rfl⟩ := asInt?_eq_some.mp isConst
    obtain ⟨⟨op, a, b⟩, isBinary, builds⟩ := Option.bind_eq_some_iff.mp applies
    obtain ⟨innerType, rfl⟩ := asBinary?_eq_some.mp isBinary
    dsimp only at builds
    split at builds
    · exact ((standsFor_lhs rfl).beneath
        (beneath_lhs (by rfl) (isInert_intConst_right ..))).binaryConst builds
    · exact ((standsFor_lhs rfl).beneath
        (beneath_lhs (by rfl) (isInert_intConst_right ..))).binaryConst builds
    · exact ((standsFor_rhs rfl).beneath
        (beneath_lhs (by rfl) (isInert_intConst_right ..))).constBinary builds
    · cases builds
  next =>
    simp at applies
    obtain ⟨value, ⟨constType, rfl⟩, op, a, b, ⟨innerType, rfl⟩, builds⟩ := applies
    split at builds
    · exact ((standsFor_lhs rfl).beneath
        (beneath_rhs (by rfl) (isInert_intConst_left ..))).constBinary builds
    · exact ((standsFor_rhs rfl).beneath
        (beneath_rhs (by rfl) (isInert_intConst_left ..))).binaryConst builds
    · cases builds

theorem standsFor_cancelInDifference {expr result : Expr}
    (applies : cancelInDifference? expr = some result) : result.StandsFor expr := by
  simp [cancelInDifference?] at applies
  obtain ⟨lhs, rhs, ⟨type, rfl⟩, applies⟩ := applies
  have plain : isInert .sub lhs rhs = false := isInert_of_ne (by decide) _ _
  split at applies
  next left right isLeft isRight =>
    obtain ⟨a, b⟩ := left
    obtain ⟨c, d⟩ := right
    obtain ⟨leftType, rfl⟩ := operands?_eq_some.mp isLeft
    obtain ⟨rightType, rfl⟩ := operands?_eq_some.mp isRight
    obtain ⟨⟨x, y⟩, found, builds⟩ := Option.bind_eq_some_iff.mp applies
    obtain ⟨isX, isY⟩ : x.StandsFor (binary leftType .add a b) ∧
        y.StandsFor (binary rightType .add c d) := standsFor_withoutShared rfl found
    exact isX.combine isY rfl rfl plain builds
  next => exact (standsFor_otherOperand rfl applies).trans (standsFor_lhs rfl)
  next a b _ isLeft =>
    obtain ⟨leftType, rfl⟩ := operands?_eq_some.mp isLeft
    have negated : (constantLike? (binary leftType .sub a b) 0).bind (binary? .sub · b) =
        some result → result.StandsFor (binary type .sub (binary leftType .sub a b) rhs) := by
      intro builds
      obtain ⟨zero, isZero, builds⟩ := Option.bind_eq_some_iff.mp builds
      exact standsFor_besideZero rfl (by decide) (.inl (standsFor_rhs rfl)) isZero (.inl builds)
    split at applies
    next c d isRight =>
      obtain ⟨rightType, rfl⟩ := operands?_eq_some.mp isRight
      split at applies
      · exact (standsFor_rhs rfl).combine_swap (standsFor_rhs rfl) rfl rfl plain applies
      · exact negated (Option.ite_none_right_eq_some.mp applies).2
    next => exact negated (Option.ite_none_right_eq_some.mp applies).2
  next =>
    obtain ⟨other, found, builds⟩ := Option.bind_eq_some_iff.mp applies
    obtain ⟨zero, isZero, builds⟩ := Option.bind_eq_some_iff.mp builds
    exact standsFor_besideZero rfl (by decide) (.inr (standsFor_otherOperand rfl found)) isZero (.inl builds)
  next a b _ _ _ isRight =>
    obtain ⟨rightType, rfl⟩ := operands?_eq_some.mp isRight
    obtain ⟨-, equal⟩ := Option.ite_none_right_eq_some.mp applies
    cases equal
    exact (standsFor_rhs rfl).trans (standsFor_rhs rfl)
  next => cases applies

/-- A term and an extremum of it are subtracted from each other: the extremum of zero and of the
difference that the other operand makes takes the place of that. -/
theorem standsFor_extremumWithZero {lhs rhs extremum term other moved zero result : Expr}
    (isExtremum : op = .min ∨ op = .max) (notComparison : outer.isComparison = false)
    (found : otherOperand? extremum op term = some other)
    (moves : lhs = term ∧ rhs = extremum ∧ binary? .sub term other = some moved ∨
      lhs = extremum ∧ rhs = term ∧ binary? .sub other term = some moved)
    (isZero : constantLike? lhs 0 = some zero)
    (builds : binary? outer moved zero = some result) :
    result.StandsFor (binary dtype .sub lhs rhs) := by
  obtain ⟨notProduct, notLogical, isArithmetic⟩ :
      op ≠ .mul ∧ op.isLogical = false ∧ op.isComparison = false := by
    rcases isExtremum with rfl | rfl <;> decide
  have weighs : ∀ sizes, extremum.load sizes =
      combined .sub (term.load sizes) (other.load sizes) := by
    intro sizes
    simp [otherOperand?] at found
    obtain ⟨a, b, ⟨type, rfl⟩, found⟩ := found
    rw [load_binary_eq sizes (isInert_of_ne notProduct a b),
      combined_congr (notLogical.trans rfl : op.isLogical = BinaryOp.sub.isLogical)]
    split at found
    next same =>
      cases found
      rw [same]
    next =>
      obtain ⟨rfl, equal⟩ := Option.ite_none_right_eq_some.mp found
      cases equal
      exact combined_comm ..
  have isOther := standsFor_otherOperand isArithmetic found
  have sameLoads : ∀ sizes, (binary dtype .sub lhs rhs).load sizes =
      combined .sub (term.load sizes) (extremum.load sizes) := by
    intro sizes
    rw [load_binary_eq sizes (isInert_of_ne (by decide) lhs rhs)]
    rcases moves with ⟨rfl, rfl, -⟩ | ⟨rfl, rfl, -⟩
    · rfl
    · exact combined_comm ..
  refine ⟨fun sizes => ?_, fun type typed => ?_⟩
  · have built := (load_binary? sizes builds).trans (combined_le outer _ _)
    have light := load_constantLike?_le sizes isZero
    have moved : moved.load sizes ≤ combined .sub (term.load sizes) (other.load sizes) := by
      rcases moves with ⟨-, -, moves⟩ | ⟨-, -, moves⟩
      · exact load_binary? sizes moves
      · rw [combined_comm]
        exact load_binary? sizes moves
    have whole := weighs sizes
    rw [combined_of_not_logical rfl] at moved whole
    rw [sameLoads, combined_of_not_logical rfl]
    split_ifs at moved whole ⊢ <;> omega
  · obtain ⟨operand, left, right, -, -, rfl⟩ := hasType_binary.mp typed
    have isZero := left.constantLike? isZero
    rcases moves with ⟨rfl, rfl, moves⟩ | ⟨rfl, rfl, moves⟩
    · exact (left.arithmetic (isOther.typed _ right) rfl moves).arithmetic isZero notComparison
        builds
    · exact ((isOther.typed _ left).arithmetic right rfl moves).arithmetic isZero notComparison
        builds

theorem standsFor_subtractMinMax {expr result : Expr}
    (applies : subtractMinMax? expr = some result) : result.StandsFor expr := by
  simp [subtractMinMax?] at applies
  obtain ⟨lhs, rhs, ⟨type, rfl⟩, zero, isZero, applies⟩ := applies
  split at applies
  next found =>
    obtain ⟨moved, moves, builds⟩ := Option.bind_eq_some_iff.mp applies
    exact standsFor_extremumWithZero (.inl rfl) rfl found (.inl ⟨rfl, rfl, moves⟩) isZero builds
  next found =>
    obtain ⟨moved, moves, builds⟩ := Option.bind_eq_some_iff.mp applies
    exact standsFor_extremumWithZero (.inr rfl) rfl found (.inl ⟨rfl, rfl, moves⟩) isZero builds
  next found =>
    obtain ⟨moved, moves, builds⟩ := Option.bind_eq_some_iff.mp applies
    exact standsFor_extremumWithZero (.inl rfl) rfl found (.inr ⟨rfl, rfl, moves⟩) isZero builds
  next found =>
    obtain ⟨moved, moves, builds⟩ := Option.bind_eq_some_iff.mp applies
    exact standsFor_extremumWithZero (.inr rfl) rfl found (.inr ⟨rfl, rfl, moves⟩) isZero builds
  next => cases applies

theorem standsFor_moveOutOfDifference {expr result : Expr}
    (applies : moveOutOfDifference? expr = some result) : result.StandsFor expr := by
  simp [moveOutOfDifference?] at applies
  obtain ⟨lhs, rhs, ⟨type, rfl⟩, ⟨leftVaries, rightVaries⟩, applies⟩ := applies
  split at applies
  next split =>
    obtain ⟨moved, moves, builds⟩ := Option.bind_eq_some_iff.mp applies
    exact standsFor_moveOut (.inr rfl) (isComparison_of_splitConstant? split) split rightVaries
      (.inl ⟨rfl, rfl, moves⟩) builds
  next split =>
    obtain ⟨moved, moves, builds⟩ := Option.bind_eq_some_iff.mp applies
    exact standsFor_moveOut (.inr rfl) (isComparison_opposite _) split leftVaries
      (.inr ⟨rfl, rfl, moves⟩) builds
  next => cases applies

/-- Every rule for differences fits every expression. -/
theorem differenceRules_fit (evidence : Evidence) (expr : Expr) :
    ∀ rule ∈ differenceRules, rule.Fits evidence expr := by
  simp only [differenceRules, List.forall_mem_cons, Rule.pure, Rule.Fits]
  exact ⟨fun _ => standsFor_negativeConstant rfl, fun _ => standsFor_collectInDifference,
    fun _ => standsFor_cancelInDifference, fun _ => standsFor_factorTerms rfl (by decide),
    fun _ => standsFor_subtractMinMax, fun _ => standsFor_distributeSelect,
    fun _ => standsFor_moveOutOfDifference, by simp⟩

/-! ### Products -/

theorem standsFor_collectInProduct {expr result : Expr}
    (applies : collectInProduct? expr = some result) : result.StandsFor expr := by
  simp [collectInProduct?] at applies
  obtain ⟨c, term, d, ⟨innerType, innerConst, type, constType, rfl⟩, builds⟩ := applies
  exact ((standsFor_lhs rfl).beneath (beneath_lhs (by rfl) (isInert_intConst_right ..))).binaryConst
    builds

/-- A constant times a factor is no heavier than the constant, since the product of a wide constant
and a splat stays as it is. -/
theorem load_scaleTerm?_of_isConst {factor : Int} {term scaled : Expr}
    (scales : scaleTerm? factor term = some scaled) (isConst : term.isConst = true)
    (sizes : Variable → Nat) : scaled.load sizes ≤ max (term.load sizes) 1 := by
  unfold scaleTerm? at scales
  split at scales
  · exact (load_constantLike?_le sizes scales).trans (le_max_right _ _)
  · by_cases vector : term.dtype.isVector = true
    · have wide : term.isWideConst = true := by
        cases term <;> simp_all [IndexAlgebra.Expr.isConst, isWideConst, asInt?, Expr.dtype]
      obtain ⟨constant, isConstant, builds⟩ := Option.bind_eq_some_iff.mp scales
      unfold constantLike? constant? at isConstant
      obtain ⟨-, equal⟩ := Option.ite_none_right_eq_some.mp isConstant
      cases equal
      obtain ⟨rfl, -⟩ := binary?_eq_some (dtype_ofInt ..).symm builds
      rw [load, if_pos (by simp [isInert, wide, isSplat_ofInt vector]), load_of_isWideConst sizes wide]
      exact le_max_left _ _
    · have weightless := (load_eq_zero_iff sizes).mpr ⟨isConst, by simpa using vector⟩
      have built := load_binaryConst? sizes scales
      omega

theorem load_scaleTerm?_le {factor : Int} {term scaled : Expr}
    (scales : scaleTerm? factor term = some scaled) (sizes : Variable → Nat) :
    scaled.load sizes ≤ term.load sizes + 1 := by
  unfold scaleTerm? at scales
  split at scales
  · exact (load_constantLike?_le sizes scales).trans (Nat.le_add_left _ _)
  · exact load_binaryConst? sizes scales

theorem hasType_scaleTerm? {factor : Int} {term scaled : Expr} (typed : term.HasType dtype)
    (scales : scaleTerm? factor term = some scaled) : scaled.HasType dtype := by
  unfold scaleTerm? at scales
  split at scales
  · exact typed.constantLike? scales
  · exact typed.binaryConst? scales

theorem standsFor_distributeConstant {expr result : Expr}
    (applies : distributeConstant? expr = some result) : result.StandsFor expr := by
  simp [distributeConstant?] at applies
  obtain ⟨c, op, a, b, ⟨innerType, type, constType, rfl⟩, ⟨isSum, oneConst⟩, first, isFirst, second,
    isSecond, builds⟩ := applies
  obtain ⟨notProduct, notLogical, notComparison⟩ :
      op ≠ .mul ∧ op.isLogical = false ∧ op.isComparison = false := by
    rcases isSum with rfl | rfl <;> decide
  refine ⟨fun sizes => ?_, fun type typed => ?_⟩
  · have built := (load_binary? sizes builds).trans (combined_le op _ _)
    have left := load_scaleTerm?_le isFirst sizes
    have right := load_scaleTerm?_le isSecond sizes
    have light := load_intConst_le sizes constType c
    rw [load_binary_eq sizes (isInert_intConst_right ..),
      load_binary_eq sizes (isInert_of_ne notProduct a b), combined_of_not_logical rfl,
      combined_of_not_logical notLogical]
    cases isConst : a.isConst with
    | true =>
      have varies : b.isConst = false := by simpa [isConst] using oneConst
      have heavy := load_pos_of_not_isConst sizes varies
      have left := load_scaleTerm?_of_isConst isFirst isConst sizes
      split_ifs <;> omega
    | false =>
      have heavy := load_pos_of_not_isConst sizes isConst
      have right := load_scaleTerm?_of_isConst isSecond (by simpa [isConst] using oneConst) sizes
      split_ifs <;> omega
  · obtain ⟨operand, inner, -, -, -, rfl⟩ := hasType_binary.mp typed
    obtain ⟨innerOperand, isA, isB, -, -, rfl⟩ := hasType_binary.mp inner
    exact (hasType_scaleTerm? isA isFirst).binary? (hasType_scaleTerm? isB isSecond) builds

/-- Every rule for products fits every expression. -/
theorem productRules_fit (evidence : Evidence) (expr : Expr) :
    ∀ rule ∈ productRules, rule.Fits evidence expr := by
  simp only [productRules, List.forall_mem_cons, Rule.pure, Rule.Fits]
  exact ⟨fun _ => standsFor_collectInProduct, fun _ => standsFor_distributeConstant, by simp⟩

end IndexAlgebra.Reduction.Sums
