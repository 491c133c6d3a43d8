/-
This file proves that the rules for quotients and remainders of integers by a constant, and those for
the smaller and the greater of two integers, make expressions that stand for the ones they replace.
-/
import IndexAlgebra.Proofs.Lanes
import IndexAlgebra.Proofs.StandsFor
import IndexAlgebra.Reduction.Extrema
import IndexAlgebra.Reduction.Quotients

namespace IndexAlgebra.Reduction.Quotients

open IndexAlgebra.Expr

attribute [local simp] Option.bind_eq_some_iff Option.guard_eq_some'

/-! ### Divisions -/

/-- The operator computes a quotient or a remainder. -/
def IsDivision (op : BinaryOp) : Prop :=
  op = .truncDiv ∨ op = .floorDiv ∨ op = .truncMod ∨ op = .floorMod

theorem IsDivision.plain {op : BinaryOp} (isDivision : IsDivision op) :
    op.isLogical = false ∧ op.isComparison = false ∧ op ≠ .mul := by
  rcases isDivision with rfl | rfl | rfl | rfl <;> decide

theorem asQuotient?_eq_some {expr : Expr} {division : Division}
    (found : asQuotient? expr = some division) : IsDivision division.op ∧
      ∃ dtype constType, expr =
        binary dtype division.op division.dividend (intConst constType division.divisor) := by
  simp [asQuotient?] at found
  obtain ⟨op, dividend, divisor, ⟨constType, dtype, rfl⟩, isQuotient, -, rfl⟩ := found
  exact ⟨by rcases isQuotient with rfl | rfl <;> simp [IsDivision], dtype, constType, rfl⟩

theorem asRemainder?_eq_some {expr : Expr} {division : Division}
    (found : asRemainder? expr = some division) : IsDivision division.op ∧
      ∃ dtype constType, expr =
        binary dtype division.op division.dividend (intConst constType division.divisor) := by
  simp [asRemainder?] at found
  obtain ⟨op, dividend, divisor, ⟨constType, dtype, rfl⟩, isRemainder, -, rfl⟩ := found
  exact ⟨by rcases isRemainder with rfl | rfl <;> simp [IsDivision], dtype, constType, rfl⟩

/-- What the dividend may be replaced by is lighter than the node, so that an operator that does not
compare may be applied to it and to a constant. -/
theorem beneath_dividend {op outer : BinaryOp} {dtype constType : DataType} {part dividend : Expr}
    {divisor : Int} (isDivision : IsDivision op) (notComparison : outer.isComparison = false)
    (stands : part.StandsFor dividend) :
    Beneath outer part (binary dtype op dividend (intConst constType divisor)) :=
  stands.beneath (beneath_lhs (notComparison.trans isDivision.plain.2.1.symm) (isInert_intConst_right ..))

/-- A term of the dividend is combined with a constant, and then with another one. -/
theorem standsFor_shifted {op sumOp first second : BinaryOp} {dtype innerType constType : DataType}
    {term offset moved constant result : Expr} {value shift divisor : Int}
    (isDivision : IsDivision op) (isSum : sumOp = .add ∨ sumOp = .sub)
    (firstArithmetic : first.isComparison = false) (secondArithmetic : second.isComparison = false)
    (moves : binaryConst? first term value = some moved)
    (isConstant : constantLike? term shift = some constant)
    (builds : binary? second moved constant = some result) :
    result.StandsFor (binary dtype op (binary innerType sumOp term offset)
      (intConst constType divisor)) := by
  obtain ⟨-, notComparison, -⟩ := isDivision.plain
  have termInside : Beneath first term (binary innerType sumOp term offset) := by
    rcases isSum with rfl | rfl <;> exact beneath_lhs firstArithmetic (isInert_of_ne (by decide) _ _)
  refine standsFor_beside_constant secondArithmetic (fun sizes => ?_)
    (fun sizes => load_constantLike?_le sizes isConstant) (fun type typed => ?_) builds
  · have lighter := termInside.lighter sizes
    have built := load_binaryConst? sizes moves
    have outer := lt_combined_left op ((binary innerType sumOp term offset).load sizes)
      ((intConst constType divisor).load sizes)
    rw [load_binary_eq sizes (isInert_intConst_right ..)]
    omega
  · obtain ⟨operand, sum, -, -, -, rfl⟩ := hasType_binary.mp typed
    obtain ⟨inner, isTerm, isType⟩ := termInside.typed operand sum
    rw [binaryType, if_neg (by simp [notComparison]), ← isType, binaryType,
      if_neg (by simp [firstArithmetic])]
    have moved := isTerm.binaryConst? moves
    rw [binaryType, if_neg (by simp [firstArithmetic])] at moved
    exact ⟨moved, isTerm.constantLike? isConstant⟩

theorem splitMultiple?_eq_some {divisor coefficient : Int} {sum product rest factor : Expr}
    (found : splitMultiple? divisor sum = some (product, rest, factor, coefficient)) :
    Word.isMultiple coefficient divisor = true ∧
      ∃ dtype, (sum = binary dtype .add product rest ∨ sum = binary dtype .add rest product) ∧
        ∃ innerType constType,
          product = binary innerType .mul factor (intConst constType coefficient) := by
  simp [splitMultiple?] at found
  obtain ⟨a, b, ⟨dtype, rfl⟩, found⟩ := found
  rcases found with ⟨isProduct, isMultiple, rfl, rfl⟩ | ⟨-, isProduct, isMultiple, rfl, rfl⟩
  · exact ⟨isMultiple, dtype, .inl rfl, isProduct⟩
  · exact ⟨isMultiple, dtype, .inr rfl, isProduct⟩

/-! ### Quotients -/

theorem standsFor_divideProduct {expr result : Expr}
    (applies : divideProduct? expr = some result) : result.StandsFor expr := by
  simp [divideProduct?] at applies
  obtain ⟨division, found, x, factor, ⟨innerType, innerConst, isDividend⟩, applies⟩ := applies
  obtain ⟨isDivision, dtype, constType, rfl⟩ := asQuotient?_eq_some found
  rw [isDividend]
  split at applies
  · exact (beneath_dividend isDivision rfl (standsFor_lhs rfl)).binaryConst applies
  · obtain ⟨-, -, builds⟩ := Option.bind_eq_some_iff.mp applies
    exact (beneath_dividend isDivision isDivision.plain.2.1 (standsFor_lhs rfl)).binaryConst builds

theorem standsFor_splitOffset {evidence : Evidence} {expr result : Expr}
    (applies : splitOffset? evidence expr = some result) : result.StandsFor expr := by
  simp [splitOffset?] at applies
  obtain ⟨division, found, sumOp, x, offset, ⟨innerConst, innerType, isDividend⟩, ⟨isSum, -⟩, -,
    quotient, isQuotient, constant, isConstant, builds⟩ := applies
  obtain ⟨isDivision, dtype, constType, rfl⟩ := asQuotient?_eq_some found
  rw [isDividend]
  exact standsFor_shifted isDivision isSum isDivision.plain.2.1 (by rcases isSum with rfl | rfl <;> rfl)
    isQuotient isConstant builds

theorem standsFor_splitTerm {evidence : Evidence} {expr result : Expr}
    (applies : splitTerm? evidence expr = some result) : result.StandsFor expr := by
  simp [splitTerm?] at applies
  obtain ⟨division, found, product, rest, x, coefficient, split, -, scaled, isScaled, divided,
    isDivided, builds⟩ := applies
  obtain ⟨isDivision, dtype, constType, rfl⟩ := asQuotient?_eq_some found
  obtain ⟨-, sumType, sum, innerType, innerConst, rfl⟩ := splitMultiple?_eq_some split
  obtain ⟨-, notComparison, -⟩ := isDivision.plain
  have factorInside : Beneath .mul x (binary innerType .mul x (intConst innerConst coefficient)) :=
    beneath_lhs rfl (isInert_intConst_right ..)
  refine ⟨fun sizes => ?_, fun type typed => ?_⟩
  · have built := (load_binary? sizes builds).trans (combined_le .add _ _)
    have first := (load_binaryConst? sizes isScaled).trans (factorInside.lighter sizes)
    have second := load_binaryConst? sizes isDivided
    have outer := lt_combined_left division.op (division.dividend.load sizes)
      ((intConst constType division.divisor).load sizes)
    have whole : division.dividend.load sizes = combined .add (rest.load sizes)
        ((binary innerType .mul x (intConst innerConst coefficient)).load sizes) := by
      rcases sum with sum | sum <;> rw [sum, load_binary_eq sizes (isInert_of_ne (by decide) _ _)]
      exact combined_comm ..
    rw [combined_of_not_logical rfl] at whole
    rw [load_binary_eq sizes (isInert_intConst_right ..)]
    split_ifs at whole <;> omega
  · obtain ⟨operand, dividendTyped, -, -, -, rfl⟩ := hasType_binary.mp typed
    obtain ⟨isProduct, isRest⟩ : (binary innerType .mul x (intConst innerConst coefficient)).HasType
        operand ∧ rest.HasType operand := by
      rcases sum with sum | sum <;> rw [sum] at dividendTyped
      · exact ⟨(standsFor_lhs rfl).typed _ dividendTyped, (standsFor_rhs rfl).typed _ dividendTyped⟩
      · exact ⟨(standsFor_rhs rfl).typed _ dividendTyped, (standsFor_lhs rfl).typed _ dividendTyped⟩
    have isFactor := (standsFor_lhs rfl).typed operand isProduct
    have quotient := isRest.binaryConst? isDivided
    rw [binaryType, if_neg (by simp [notComparison])] at quotient ⊢
    exact (isFactor.binaryConst? isScaled).arithmetic quotient rfl builds

theorem standsFor_splitDividend {evidence : Evidence} {expr result : Expr}
    (applies : splitDividend? evidence expr = some result) : result.StandsFor expr := by
  simp [splitDividend?] at applies
  obtain ⟨_, _, _, _, _, _, _, applies⟩ := applies
  split at applies
  · exact standsFor_splitOffset applies
  · exact standsFor_splitTerm applies

theorem standsFor_nestedQuotient {expr result : Expr}
    (applies : nestedQuotient? expr = some result) : result.StandsFor expr := by
  simp [nestedQuotient?] at applies
  obtain ⟨division, found, x, inner, ⟨innerType, innerConst, isDividend⟩, -, builds⟩ := applies
  obtain ⟨isDivision, dtype, constType, rfl⟩ := asQuotient?_eq_some found
  rw [isDividend]
  have notComparison := isDivision.plain.2.1
  exact (beneath_dividend isDivision notComparison (standsFor_lhs notComparison)).binaryConst builds

/-- Every rule for quotients fits every expression. -/
theorem quotientRules_fit (evidence : Evidence) (expr : Expr) :
    ∀ rule ∈ quotientRules, rule.Fits evidence expr := by
  simp only [quotientRules, List.forall_mem_cons, Rule.pure, Rule.Fits]
  exact ⟨fun _ => standsFor_divideProduct, fun _ => standsFor_splitDividend,
    fun _ => standsFor_nestedQuotient, by simp⟩

/-! ### Remainders -/

theorem standsFor_modInRange {evidence : Evidence} {expr result : Expr}
    (applies : modInRange? evidence expr = some result) : result.StandsFor expr := by
  simp [modInRange?] at applies
  obtain ⟨division, found, -, -, -, -, -, rfl⟩ := applies
  obtain ⟨isDivision, dtype, constType, rfl⟩ := asRemainder?_eq_some found
  exact standsFor_lhs isDivision.plain.2.1

theorem standsFor_remainderOfProduct {expr result : Expr}
    (applies : remainderOfProduct? expr = some result) : result.StandsFor expr := by
  simp [remainderOfProduct?] at applies
  obtain ⟨_, _, _, _, _, _, builds⟩ := applies
  exact standsFor_constantLike? builds

theorem standsFor_dropMultiple {evidence : Evidence} {expr result : Expr}
    (applies : dropMultiple? evidence expr = some result) : result.StandsFor expr := by
  simp [dropMultiple?] at applies
  obtain ⟨division, found, -, product, rest, ⟨x, coefficient, split⟩, -, builds⟩ := applies
  obtain ⟨isDivision, dtype, constType, rfl⟩ := asRemainder?_eq_some found
  obtain ⟨-, sumType, sum, -⟩ := splitMultiple?_eq_some split
  have stands : rest.StandsFor division.dividend := by
    rcases sum with sum | sum <;> rw [sum]
    · exact standsFor_rhs rfl
    · exact standsFor_lhs rfl
  exact (beneath_dividend isDivision isDivision.plain.2.1 stands).binaryConst builds

theorem standsFor_modularRemainder {evidence : Evidence} {expr result : Expr}
    (applies : modularRemainder? evidence expr = some result) : result.StandsFor expr := by
  simp [modularRemainder?] at applies
  obtain ⟨_, _, _, _, _, builds⟩ := applies
  exact standsFor_constantLike? builds

theorem standsFor_nestedRemainder {expr result : Expr}
    (applies : nestedRemainder? expr = some result) : result.StandsFor expr := by
  simp [nestedRemainder?] at applies
  obtain ⟨division, found, x, inner, ⟨innerType, innerConst, isDividend⟩, -, builds⟩ := applies
  obtain ⟨isDivision, dtype, constType, rfl⟩ := asRemainder?_eq_some found
  rw [isDividend]
  have notComparison := isDivision.plain.2.1
  exact (beneath_dividend isDivision notComparison (standsFor_lhs notComparison)).binaryConst builds

theorem standsFor_reduceOffset {evidence : Evidence} {expr result : Expr}
    (applies : reduceOffset? evidence expr = some result) : result.StandsFor expr := by
  simp [reduceOffset?] at applies
  obtain ⟨division, found, sumOp, x, offset, innerConst, ⟨innerType, isDividend⟩, isSum, applies⟩ :=
    applies
  obtain ⟨isDivision, dtype, constType, rfl⟩ := asRemainder?_eq_some found
  rw [isDividend]
  have notComparison := isDivision.plain.2.1
  have stands : x.StandsFor (binary innerType sumOp x (intConst innerConst offset)) :=
    standsFor_lhs (by rcases isSum with rfl | rfl <;> rfl)
  generalize (if sumOp = .add then offset else -offset) = shift at applies
  split at applies
  · obtain ⟨-, -, applies⟩ := Option.bind_eq_some_iff.mp applies
    split at applies
    · exact (beneath_dividend isDivision notComparison stands).binaryConst applies
    · obtain ⟨moved, moves, applies⟩ := Option.bind_eq_some_iff.mp applies
      obtain ⟨constant, isConstant, builds⟩ := Option.bind_eq_some_iff.mp applies
      exact standsFor_shifted isDivision isSum (by rfl) notComparison moves isConstant builds
  · obtain ⟨-, -, applies⟩ := Option.bind_eq_some_iff.mp applies
    obtain ⟨-, -, builds⟩ := Option.bind_eq_some_iff.mp applies
    exact (beneath_dividend isDivision notComparison stands).binaryConst builds

/-- Every rule for remainders fits every expression. -/
theorem remainderRules_fit (evidence : Evidence) (expr : Expr) :
    ∀ rule ∈ remainderRules, rule.Fits evidence expr := by
  simp only [remainderRules, List.forall_mem_cons, Rule.pure, Rule.Fits]
  exact ⟨fun _ => standsFor_modInRange, fun _ => standsFor_remainderOfProduct,
    fun _ => standsFor_dropMultiple, fun _ => standsFor_modularRemainder,
    fun _ => standsFor_nestedRemainder, fun _ => standsFor_reduceOffset, by simp⟩

end IndexAlgebra.Reduction.Quotients

namespace IndexAlgebra.Reduction.Extrema

open IndexAlgebra.Expr

attribute [local simp] Option.bind_eq_some_iff Option.guard_eq_some'

/-! ### The smaller and the greater of two integers -/

theorem asExtremum?_eq_some {expr lhs rhs : Expr} {op : BinaryOp}
    (found : asExtremum? expr = some (op, lhs, rhs)) :
    (op = .min ∨ op = .max) ∧ ∃ dtype, expr = binary dtype op lhs rhs := by
  simp [asExtremum?] at found
  exact ⟨found.2, found.1⟩

theorem plain_of_isExtremum {op : BinaryOp} (isExtremum : op = .min ∨ op = .max) :
    op.isLogical = false ∧ op.isComparison = false ∧ op ≠ .mul := by
  rcases isExtremum with rfl | rfl <;> decide

theorem standsFor_extremumOfConstants {expr result : Expr}
    (applies : extremumOfConstants? expr = some result) : result.StandsFor expr := by
  simp [extremumOfConstants?] at applies
  obtain ⟨op, second, constType, x, first, innerType, innerConst, found, builds⟩ := applies
  obtain ⟨isExtremum, dtype, rfl⟩ := asExtremum?_eq_some found
  exact ((standsFor_lhs (plain_of_isExtremum isExtremum).2.1).beneath
    (beneath_lhs rfl (isInert_intConst_right ..))).binaryConst builds

/-- An operand of an extremum stands for it. -/
theorem standsFor_operand {expr lhs rhs : Expr} {op : BinaryOp}
    (found : asExtremum? expr = some (op, lhs, rhs)) : lhs.StandsFor expr ∧ rhs.StandsFor expr := by
  obtain ⟨isExtremum, dtype, rfl⟩ := asExtremum?_eq_some found
  have notComparison := (plain_of_isExtremum isExtremum).2.1
  exact ⟨standsFor_lhs notComparison, standsFor_rhs notComparison⟩

theorem standsFor_absorb {expr result : Expr} (applies : absorb? expr = some result) :
    result.StandsFor expr := by
  simp [absorb?] at applies
  obtain ⟨op, lhs, rhs, found, applies⟩ := applies
  split at applies
  · cases applies
    exact (standsFor_operand found).1
  · obtain ⟨-, equal⟩ := Option.ite_none_right_eq_some.mp applies
    cases equal
    exact (standsFor_operand found).2

theorem standsFor_repeated {expr result : Expr} (applies : repeated? expr = some result) :
    result.StandsFor expr := by
  simp [repeated?] at applies
  obtain ⟨op, lhs, rhs, found, applies⟩ := applies
  split at applies
  · cases applies
    exact (standsFor_operand found).1
  · obtain ⟨-, equal⟩ := Option.ite_none_right_eq_some.mp applies
    cases equal
    exact (standsFor_operand found).2

/-- Combining the parts beside a term that two operands share comes before combining the term with
them. -/
theorem combined_shared_le (shared first second : Nat) :
    combined .add shared (combined .add first second) ≤
      combined .add (combined .add shared first) (combined .add shared second) := by
  have additive := combined_of_not_logical (rfl : BinaryOp.add.isLogical = false)
  have inner := additive first second
  have left := additive shared first
  have right := additive shared second
  rw [additive shared, additive (combined .add shared first)]
  split_ifs at inner left right ⊢ <;> omega

/-- A term that two operands share moves out of the node. -/
theorem standsFor_sharedTerm {op inner sumOp : BinaryOp} {dtype leftType rightType : DataType}
    {lhs rhs shared x y result : Expr} (isExtremum : op = .min ∨ op = .max)
    (innerExtremum : inner = .min ∨ inner = .max) (isSum : sumOp = .add ∨ sumOp = .sub)
    (left : lhs = binary leftType sumOp shared x ∨ lhs = binary leftType sumOp x shared)
    (right : rhs = binary rightType sumOp shared y ∨ rhs = binary rightType sumOp y shared)
    (applies : (binary? inner x y).bind (binary? sumOp shared) = some result ∨
      (binary? inner x y).bind (binary? sumOp · shared) = some result) :
    result.StandsFor (binary dtype op lhs rhs) := by
  obtain ⟨moved, moves, builds⟩ : ∃ moved, binary? inner x y = some moved ∧
      (binary? sumOp shared moved = some result ∨ binary? sumOp moved shared = some result) := by
    simp only [Option.bind_eq_some_iff] at applies
    obtain ⟨moved, moves, builds⟩ | ⟨moved, moves, builds⟩ := applies
    · exact ⟨moved, moves, .inl builds⟩
    · exact ⟨moved, moves, .inr builds⟩
  obtain ⟨notLogical, notComparison, notProduct⟩ := plain_of_isExtremum isExtremum
  obtain ⟨innerLogical, innerComparison, -⟩ := plain_of_isExtremum innerExtremum
  obtain ⟨sumLogical, sumComparison, sumProduct⟩ :
      sumOp.isLogical = false ∧ sumOp.isComparison = false ∧ sumOp ≠ .mul := by
    rcases isSum with rfl | rfl <;> decide
  have additive : ∀ {op : BinaryOp}, op.isLogical = false → ∀ first second,
      combined op first second = combined .add first second :=
    fun notLogical => combined_congr (notLogical.trans rfl)
  have operandLoad : ∀ sizes {operand part : Expr} {type : DataType},
      operand = binary type sumOp shared part ∨ operand = binary type sumOp part shared →
      operand.load sizes = combined .add (shared.load sizes) (part.load sizes) := by
    rintro sizes operand part type (rfl | rfl) <;>
      rw [load_binary_eq sizes (isInert_of_ne sumProduct _ _), additive sumLogical]
    exact combined_comm ..
  have operandTyped : ∀ {operand part : Expr} {type found : DataType},
      operand = binary type sumOp shared part ∨ operand = binary type sumOp part shared →
      operand.HasType found → shared.HasType found ∧ part.HasType found := by
    rintro operand part type found (rfl | rfl) typed
    · exact ⟨(standsFor_lhs sumComparison).typed _ typed, (standsFor_rhs sumComparison).typed _ typed⟩
    · exact ⟨(standsFor_rhs sumComparison).typed _ typed, (standsFor_lhs sumComparison).typed _ typed⟩
  refine ⟨fun sizes => ?_, fun type typed => ?_⟩
  · have movedLoad := load_binary? sizes moves
    rw [additive innerLogical] at movedLoad
    rw [load_binary_eq sizes (isInert_of_ne notProduct _ _), additive notLogical,
      operandLoad sizes left, operandLoad sizes right]
    refine le_trans ?_ (combined_shared_le (shared.load sizes) (x.load sizes) (y.load sizes))
    refine le_trans ?_ (combined_mono le_rfl movedLoad)
    rcases builds with builds | builds
    · exact (load_binary? sizes builds).trans (additive sumLogical _ _).le
    · exact (load_binary? sizes builds).trans ((additive sumLogical _ _).trans (combined_comm ..)).le
  · obtain ⟨operand, leftTyped, rightTyped, -, -, rfl⟩ := hasType_binary.mp typed
    obtain ⟨isShared, isX⟩ := operandTyped left leftTyped
    have isMoved := isX.arithmetic (operandTyped right rightTyped).2 innerComparison moves
    rw [binaryType, if_neg (by simp [notComparison])]
    rcases builds with builds | builds
    · exact isShared.arithmetic isMoved sumComparison builds
    · exact isMoved.arithmetic isShared sumComparison builds

theorem standsFor_commonTerm {expr result : Expr} (applies : commonTerm? expr = some result) :
    result.StandsFor expr := by
  simp [commonTerm?] at applies
  obtain ⟨op, lhs, rhs, found, applies⟩ := applies
  obtain ⟨isExtremum, dtype, rfl⟩ := asExtremum?_eq_some found
  split at applies
  next a b c d isLeft isRight =>
    obtain ⟨leftType, rfl⟩ := operands?_eq_some.mp isLeft
    obtain ⟨rightType, rfl⟩ := operands?_eq_some.mp isRight
    split at applies
    next same =>
      subst same
      exact standsFor_sharedTerm isExtremum isExtremum (.inl rfl) (.inl rfl) (.inl rfl) (.inl applies)
    split at applies
    next same =>
      subst same
      exact standsFor_sharedTerm isExtremum isExtremum (.inl rfl) (.inr rfl) (.inr rfl) (.inr applies)
    split at applies
    next same =>
      subst same
      exact standsFor_sharedTerm isExtremum isExtremum (.inl rfl) (.inl rfl) (.inr rfl) (.inl applies)
    split at applies
    next same =>
      subst same
      exact standsFor_sharedTerm isExtremum isExtremum (.inl rfl) (.inr rfl) (.inl rfl) (.inr applies)
    next => cases applies
  next a b c d isLeft isRight _ =>
    obtain ⟨leftType, rfl⟩ := operands?_eq_some.mp isLeft
    obtain ⟨rightType, rfl⟩ := operands?_eq_some.mp isRight
    split at applies
    next same =>
      subst same
      exact standsFor_sharedTerm isExtremum isExtremum (.inr rfl) (.inr rfl) (.inr rfl) (.inr applies)
    split at applies
    next same =>
      subst same
      exact standsFor_sharedTerm isExtremum (BinaryOp.isExtremum_dual isExtremum)
        (.inr rfl) (.inl rfl) (.inl rfl) (.inl applies)
    next => cases applies
  next => cases applies

/-- A positive or negative factor moves out of an extremum. -/
theorem standsFor_scaled {op : BinaryOp} {dtype : DataType} {lhs rhs x inner constant result : Expr}
    {c : Int} (isExtremum : op = .min ∨ op = .max)
    (factor : Beneath .add x lhs)
    (lighter : ∀ sizes, inner.load sizes < lhs.load sizes + max (rhs.load sizes) 1)
    (typed : ∀ type, lhs.HasType type → rhs.HasType type → inner.HasType type)
    (isConstant : constantLike? x c = some constant)
    (builds : binary? .mul inner constant = some result) :
    result.StandsFor (binary dtype op lhs rhs) := by
  obtain ⟨notLogical, notComparison, notProduct⟩ := plain_of_isExtremum isExtremum
  refine standsFor_beside_constant rfl (fun sizes => ?_)
    (fun sizes => load_constantLike?_le sizes isConstant) (fun type isType => ?_) builds
  · have strict := factor.lighter sizes
    have weighs := lighter sizes
    rw [load_binary_eq sizes (isInert_of_ne notProduct _ _), combined_of_not_logical notLogical,
      if_neg (by omega)]
    omega
  · obtain ⟨operand, left, right, -, -, rfl⟩ := hasType_binary.mp isType
    obtain ⟨_, isX, rfl⟩ := factor.typed operand left
    rw [binaryType, if_neg (by simp [notComparison])]
    exact ⟨typed _ left right, isX.constantLike? isConstant⟩

theorem standsFor_scale {expr result : Expr} (applies : scale? expr = some result) :
    result.StandsFor expr := by
  simp [scale?] at applies
  obtain ⟨op, rhs, x, c, ⟨leftType, leftConst, found⟩, -, applies⟩ := applies
  obtain ⟨isExtremum, dtype, rfl⟩ := asExtremum?_eq_some found
  have factor : ∀ {op : BinaryOp}, op.isComparison = false →
      Beneath op x (binary leftType .mul x (intConst leftConst c)) :=
    fun notComparison => beneath_lhs notComparison (isInert_intConst_right ..)
  obtain ⟨-, notComparison, -⟩ := plain_of_isExtremum isExtremum
  have withConstant : (scaledConstant? op x c rhs).bind (fun inner =>
      (constantLike? x c).bind fun constant => binary? .mul inner constant) = some result →
      result.StandsFor (binary dtype op (binary leftType .mul x (intConst leftConst c)) rhs) := by
    intro applies
    simp [scaledConstant?] at applies
    obtain ⟨inner, ⟨value, ⟨rightType, rfl⟩, -, moves⟩, constant, isConstant, builds⟩ := applies
    refine standsFor_scaled isExtremum (factor rfl) (fun sizes => ?_) (fun type left _ => ?_)
      isConstant builds
    · have lighter := ((factor notComparison).binaryConst moves).lighter sizes
      omega
    · exact ((factor notComparison).binaryConst moves).typed type left
  split at applies
  next y d isRight =>
    split at applies
    next same =>
      obtain ⟨rightType, rightConst, rfl⟩ := withConst?_eq_some.mp isRight
      obtain ⟨inner, moves, applies⟩ := Option.bind_eq_some_iff.mp applies
      obtain ⟨constant, isConstant, builds⟩ := Option.bind_eq_some_iff.mp applies
      have innerExtremum : (if 0 < c then op else op.dual) = .min ∨
          (if 0 < c then op else op.dual) = .max := by
        split
        · exact isExtremum
        · exact BinaryOp.isExtremum_dual isExtremum
      obtain ⟨innerLogical, innerComparison, -⟩ := plain_of_isExtremum innerExtremum
      refine standsFor_scaled isExtremum (factor rfl) (fun sizes => ?_) (fun type left right => ?_)
        isConstant builds
      · have built := load_binary? sizes moves
        have left := (factor (rfl : BinaryOp.add.isComparison = false)).lighter sizes
        have right : y.load sizes < (binary rightType .mul y (intConst rightConst d)).load sizes := by
          rw [load_binary_eq sizes (isInert_intConst_right ..)]
          exact lt_combined_left .mul _ _
        rw [combined_of_not_logical innerLogical] at built
        split_ifs at built <;> omega
      · exact ((standsFor_lhs rfl).typed type left).arithmetic ((standsFor_lhs rfl).typed type right)
          innerComparison moves
    next => exact withConstant applies
  next => exact withConstant applies

theorem standsFor_knownExtremum {relation : Relation} {expr result : Expr}
    (applies : knownExtremum? relation expr = some result) : result.StandsFor expr := by
  simp [knownExtremum?] at applies
  obtain ⟨op, lhs, rhs, found, applies⟩ := applies
  obtain ⟨isLeft, isRight⟩ := standsFor_operand found
  split at applies <;> cases applies <;> assumption

/-- Every rule for the smaller and the greater of two integers fits every expression. -/
theorem rules_fit (evidence : Evidence) (expr : Expr) :
    ∀ rule ∈ rules, rule.Fits evidence expr := by
  simp only [rules, List.forall_mem_cons, Rule.pure, Rule.Fits]
  refine ⟨fun _ => standsFor_extremumOfConstants, fun _ => standsFor_absorb,
    fun _ => standsFor_repeated, fun _ => standsFor_commonTerm, fun _ => standsFor_scale,
    ⟨fun lhs rhs difference operands builds => ?_, fun _ _ => standsFor_knownExtremum⟩, by simp⟩
  simp [extremumOperands?] at operands
  obtain ⟨op, found⟩ := operands
  obtain ⟨isExtremum, dtype, rfl⟩ := asExtremum?_eq_some found
  obtain ⟨notLogical, -, notProduct⟩ := plain_of_isExtremum isExtremum
  exact load_difference_le notLogical notProduct builds

end IndexAlgebra.Reduction.Extrema
