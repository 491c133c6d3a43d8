/-
This file proves that what a rule makes of a regular form is regular, and has an exact value where the
form has one.
-/
import IndexAlgebra.Proofs.BackedForms
import IndexAlgebra.Proofs.Exact.AllRules
import IndexAlgebra.Proofs.FullRules

namespace IndexAlgebra

open IndexAlgebra.Expr

/-- What the form becomes is regular, and has an exact value where the form has one. -/
def Expr.BackedBy (env : Environment) (result form : Expr) : Prop := form.Regular → Backed env form result

/-- The expression is not the constant one of an integer type that cannot hold it. -/
def Expr.FitsOne (expr : Expr) : Prop :=
  expr = ofInt expr.dtype 1 → expr.dtype.isInteger = true → expr.dtype.fits 1 = true

instance (expr : Expr) : Decidable expr.FitsOne :=
  inferInstanceAs (Decidable (_ = _ → _ = _ → _ = _))

theorem Expr.FitsOne.fits_one {dtype : DataType} (fitsOne : (ofInt dtype 1).FitsOne)
    (isInteger : dtype.isInteger = true) : dtype.fits 1 = true := by
  have isType := dtype_ofInt dtype 1
  rw [FitsOne, isType] at fitsOne
  exact fitsOne rfl isInteger

/-- What the form becomes is regular, and has an exact value where the form has one, if it is no constant
that its type cannot hold and exposes no branch without a value. -/
def Expr.KeptBy (env : Environment) (result form : Expr) : Prop :=
  form.Regular → result.FitsOne →
    (∀ value, form.evalExact env = some value → ∀ branch, Reduction.Choices.Exposes form result branch →
      (branch.evalExact env).isSome = true) → Backed env form result

theorem Expr.BackedBy.keptBy {env : Environment} {result form : Expr} (backed : result.BackedBy env form) :
    result.KeptBy env form := fun regular _ _ => backed regular

namespace Reduction

open IndexAlgebra.Reduction.Quotients (IsDivision)

variable {env : Environment} {form expr result : Expr} {op : BinaryOp}

attribute [local simp] Option.bind_eq_some_iff Option.guard_eq_some'
attribute [local grind =] Option.bind_eq_some_iff Option.guard_eq_some'

/-! ### Sums, differences and products -/

namespace Sums

theorem backed_splitCoefficient (backed : BackedNumber env form expr) :
    BackedNumber env form (splitCoefficient expr).1 := by
  unfold splitCoefficient
  cases reads : expr.withConst? .mul with
  | none => exact backed
  | some parts =>
    obtain ⟨dtype, constType, rfl⟩ := withConst?_eq_some.mp reads
    grind

@[grind →]
theorem backed_splitConstant? {term constant : Expr}
    (splits : splitConstant? expr = some (op, term, constant)) (backed : Backed env form expr) :
    BackedNumber env form term ∧ BackedNumber env form constant ∧ (op = .add ∨ op = .sub) := by
  simp [splitConstant?] at splits
  grind

@[grind →]
theorem backed_withoutShared? {a b c d x y : Expr} (finds : withoutShared? (a, b) (c, d) = some (x, y))
    (isA : BackedNumber env form a) (isB : BackedNumber env form b) (isC : BackedNumber env form c)
    (isD : BackedNumber env form d) : BackedNumber env form x ∧ BackedNumber env form y := by
  simp only [withoutShared?] at finds
  grind

@[grind →]
theorem backed_otherOperand? {term other : Expr} (finds : otherOperand? expr op term = some other)
    (backed : Backed env form expr) (total : NeverFails op) : BackedNumber env form other := by
  simp [otherOperand?] at finds
  grind

@[grind →]
theorem backed_reassembled? {remainder : Expr} 
    (finds : reassembled? expr remainder = some result) (backed : Backed env form expr) :
    Backed env form result := by
  simp [reassembled?] at finds
  grind

@[grind →]
theorem backed_scaleTerm? {factor : Int} (truthful : env.Truthful) 
    (builds : scaleTerm? factor expr = some result) (backed : BackedNumber env form expr) :
    BackedNumber env form result := by
  simp [scaleTerm?] at builds
  grind

theorem backed_negativeConstant (truthful : env.Truthful) (backed : Backed env form expr)
    (isSum : op = .add ∨ op = .sub)
    (applies : negativeConstant? op expr = some result) : Backed env form result := by
  simp [negativeConstant?, opposite] at applies
  grind

theorem backed_factorTerms (truthful : env.Truthful) (backed : Backed env form expr)
    (isSum : op = .add ∨ op = .sub) (applies : factorTerms? op expr = some result) :
    Backed env form result := by
  simp [factorTerms?] at applies
  obtain ⟨lhs, rhs, ⟨dtype, rfl⟩, -, builds⟩ := applies
  have isLhs : BackedNumber env form lhs := by grind
  have := backed_splitCoefficient isLhs
  grind

theorem backed_distributeSelect (truthful : env.Truthful) (backed : Backed env form expr)
    (applies : distributeSelect? expr = some result) : Backed env form result := by
  simp [distributeSelect?] at applies
  obtain ⟨op, lhs, rhs, ⟨dtype, rfl⟩, isSum, applies⟩ := applies
  split at applies
  next leftType cond a b rightType cond' d e =>
    simp at applies
    obtain ⟨-, first, isFirst, second, isSecond, builds⟩ := applies
    grind
  next => cases applies

theorem sumRules_backed (truthful : env.Truthful) (evidence : Evidence) (expr : Expr) :
    ∀ rule ∈ sumRules, Rule.Relates (BackedBy env) evidence expr rule := by
  simp only [sumRules, List.forall_mem_cons, Rule.pure, Rule.Relates]
  refine ⟨?_, ?_, ?_, ?_, ?_, ?_, ?_, ?_, ?_, by simp⟩
  all_goals
    intro result applies regular
    have backed : Backed env expr expr := .refl regular
  · exact backed_negativeConstant truthful backed (.inl rfl) applies
  · simp [collectInSum?] at applies
    grind
  · simp [cancelInSum?] at applies
    grind
  · simp [addSelf?] at applies
    grind
  · exact backed_factorTerms truthful backed (.inl rfl) applies
  · simp [reassemble?] at applies
    grind
  · simp [minPlusMax?] at applies
    obtain ⟨lhs, rhs, ⟨dtype, rfl⟩, applies⟩ := applies
    split at applies <;> simp at applies <;> grind
  · exact backed_distributeSelect truthful backed applies
  · simp [moveOutOfSum?] at applies
    grind

theorem differenceRules_backed (truthful : env.Truthful) (evidence : Evidence) (expr : Expr) :
    ∀ rule ∈ differenceRules, Rule.Relates (BackedBy env) evidence expr rule := by
  simp only [differenceRules, List.forall_mem_cons, Rule.pure, Rule.Relates]
  refine ⟨?_, ?_, ?_, ?_, ?_, ?_, ?_, by simp⟩
  all_goals
    intro result applies regular
    have backed : Backed env expr expr := .refl regular
  · exact backed_negativeConstant truthful backed (.inr rfl) applies
  · simp [collectInDifference?] at applies
    grind
  · simp [cancelInDifference?] at applies
    grind
  · exact backed_factorTerms truthful backed (.inr rfl) applies
  · simp [subtractMinMax?] at applies
    grind
  · exact backed_distributeSelect truthful backed applies
  · simp [moveOutOfDifference?, opposite] at applies
    grind

theorem productRules_backed (truthful : env.Truthful) (evidence : Evidence) (expr : Expr) :
    ∀ rule ∈ productRules, Rule.Relates (BackedBy env) evidence expr rule := by
  simp only [productRules, List.forall_mem_cons, Rule.pure, Rule.Relates]
  refine ⟨?_, ?_, by simp⟩
  all_goals
    intro result applies regular
    have backed : Backed env expr expr := .refl regular
  · simp [collectInProduct?] at applies
    grind
  · simp [distributeConstant?] at applies
    grind

end Sums

/-! ### Quotients, remainders and extrema -/

namespace Quotients

variable {division : Division}

@[grind →]
theorem backed_asQuotient? (reads : asQuotient? expr = some division) (backed : Backed env form expr) :
    BackedNumber env form division.dividend ∧ division.divisor ≠ 0 ∧
      (division.op = .truncDiv ∨ division.op = .floorDiv) := by
  simp [asQuotient?] at reads
  grind

@[grind →]
theorem backed_asRemainder? (reads : asRemainder? expr = some division) (backed : Backed env form expr) :
    BackedNumber env form division.dividend ∧ division.divisor ≠ 0 ∧
      (division.op = .truncMod ∨ division.op = .floorMod) := by
  simp [asRemainder?] at reads
  grind

@[grind →]
theorem backed_splitMultiple? {divisor coefficient : Int} {product rest factor : Expr}
    (splits : splitMultiple? divisor expr = some (product, rest, factor, coefficient))
    (backed : Backed env form expr) :
    BackedNumber env form product ∧ BackedNumber env form rest ∧ BackedNumber env form factor := by
  simp [splitMultiple?] at splits
  grind

theorem quotientRules_backed (truthful : env.Truthful) (evidence : Evidence) (expr : Expr) :
    ∀ rule ∈ quotientRules, Rule.Relates (BackedBy env) evidence expr rule := by
  simp only [quotientRules, List.forall_mem_cons, Rule.pure, Rule.Relates]
  refine ⟨?_, ?_, ?_, by simp⟩
  all_goals
    intro result applies regular
    have backed : Backed env expr expr := .refl regular
  · simp [divideProduct?] at applies
    obtain ⟨division, isQuotient, x, factor, ⟨dtype, constType, shape⟩, applies⟩ := applies
    obtain ⟨isDividend, nonzero, isOp⟩ := backed_asQuotient? isQuotient backed
    have isX : BackedNumber env expr x := by grind
    split at applies
    · grind
    · simp at applies
      obtain ⟨⟨-, positive, divides⟩, builds⟩ := applies
      have quotient : division.divisor.tdiv factor ≠ 0 := fun zero =>
        nonzero (by rw [← Int.mul_tdiv_cancel' (Int.dvd_of_tmod_eq_zero divides), zero, Int.mul_zero])
      grind
  · simp [splitDividend?] at applies
    obtain ⟨_, -, -, _, _, _, -, applies⟩ := applies
    split at applies
    · simp [splitOffset?] at applies
      grind
    · simp [splitTerm?] at applies
      grind
  · simp [nestedQuotient?] at applies
    obtain ⟨division, isQuotient, x, inner, ⟨dtype, constType, shape⟩, positive, builds⟩ := applies
    have product : inner * division.divisor ≠ 0 := (Int.mul_pos positive.1 positive.2).ne'
    grind

theorem remainderRules_backed (truthful : env.Truthful) (evidence : Evidence) (expr : Expr) :
    ∀ rule ∈ remainderRules, Rule.Relates (BackedBy env) evidence expr rule := by
  simp only [remainderRules, List.forall_mem_cons, Rule.pure, Rule.Relates]
  refine ⟨?_, ?_, ?_, ?_, ?_, ?_, by simp⟩
  all_goals
    intro result applies regular
    have backed : Backed env expr expr := .refl regular
  · simp [modInRange?] at applies
    grind
  · simp [remainderOfProduct?] at applies
    grind
  · simp [dropMultiple?] at applies
    grind
  · simp [modularRemainder?] at applies
    grind
  · simp [nestedRemainder?] at applies
    grind
  · simp [reduceOffset?] at applies
    obtain ⟨division, isRemainder, sumOp, x, offset, constType, ⟨dtype, shape⟩, isSum, applies⟩ := applies
    obtain ⟨isDividend, nonzero, isOp⟩ := backed_asRemainder? isRemainder backed
    have isX : BackedNumber env expr x := by grind
    generalize (if sumOp = .add then offset else -offset) = shift at applies
    split at applies
    · obtain ⟨-, -, applies⟩ := Option.bind_eq_some_iff.mp applies
      split at applies <;> grind
    · grind

end Quotients

namespace Extrema

@[grind →]
theorem backed_asExtremum? {lhs rhs : Expr} (reads : asExtremum? expr = some (op, lhs, rhs))
    (backed : Backed env form expr) :
    BackedNumber env form lhs ∧ BackedNumber env form rhs ∧ (op = .min ∨ op = .max) := by
  simp [asExtremum?] at reads
  grind

@[grind →]
theorem backed_scaledConstant? {rhs : Expr} {factor : Int} (truthful : env.Truthful)
    (scales : scaledConstant? op expr factor rhs = some result) (backed : BackedNumber env form expr)
    (total : NeverFails op) : BackedNumber env form result := by
  simp [scaledConstant?] at scales
  grind

/-- A term and what is computed of two other terms are combined. -/
theorem backed_combined {inner outer : BinaryOp} {a b c moved : Expr} (truthful : env.Truthful)
    (moves : binary? inner b c = some moved)
    (builds : binary? outer a moved = some result ∨ binary? outer moved a = some result)
    (isA : BackedNumber env form a) (isB : BackedNumber env form b) (isC : BackedNumber env form c)
    (isInner : NeverFails inner) (isOuter : NeverFails outer) : Backed env form result := by
  have isMoved := backedNumber_binary? truthful moves isB isC isInner
  rcases builds with builds | builds
  · exact (backedNumber_binary? truthful builds isA isMoved isOuter).toBacked
  · exact (backedNumber_binary? truthful builds isMoved isA isOuter).toBacked

theorem backed_commonTerm? (truthful : env.Truthful) (applies : commonTerm? expr = some result)
    (backed : Backed env form expr) : Backed env form result := by
  simp [commonTerm?] at applies
  obtain ⟨op, lhs, rhs, reads, applies⟩ := applies
  obtain ⟨isLhs, isRhs, isExtremum⟩ := backed_asExtremum? reads backed
  have total : NeverFails op ∧ NeverFails op.dual := by
    rcases isExtremum with rfl | rfl <;> simp [NeverFails, BinaryOp.dual]
  have isSum : NeverFails .add ∧ NeverFails .sub := by simp [NeverFails]
  split at applies
  next a b c d isLeft isRight =>
    obtain ⟨isA, isB⟩ := isLhs.toBacked.of_operands? isLeft (.inl isSum.1)
    obtain ⟨isC, isD⟩ := isRhs.toBacked.of_operands? isRight (.inl isSum.1)
    split at applies
    next =>
      obtain ⟨moved, moves, builds⟩ := Option.bind_eq_some_iff.mp applies
      exact backed_combined truthful moves (.inl builds) isA isB isD total.1 isSum.1
    split at applies
    next =>
      obtain ⟨moved, moves, builds⟩ := Option.bind_eq_some_iff.mp applies
      exact backed_combined truthful moves (.inr builds) isB isA isC total.1 isSum.1
    split at applies
    next =>
      obtain ⟨moved, moves, builds⟩ := Option.bind_eq_some_iff.mp applies
      exact backed_combined truthful moves (.inl builds) isA isB isC total.1 isSum.1
    obtain ⟨-, shares⟩ := Option.ite_none_right_eq_some.mp applies
    obtain ⟨moved, moves, builds⟩ := Option.bind_eq_some_iff.mp shares
    exact backed_combined truthful moves (.inr builds) isB isA isD total.1 isSum.1
  next a b c d isLeft isRight _ =>
    obtain ⟨isA, isB⟩ := isLhs.toBacked.of_operands? isLeft (.inl isSum.2)
    obtain ⟨isC, isD⟩ := isRhs.toBacked.of_operands? isRight (.inl isSum.2)
    split at applies
    next =>
      obtain ⟨moved, moves, builds⟩ := Option.bind_eq_some_iff.mp applies
      exact backed_combined truthful moves (.inr builds) isB isA isC total.1 isSum.2
    obtain ⟨-, shares⟩ := Option.ite_none_right_eq_some.mp applies
    obtain ⟨moved, moves, builds⟩ := Option.bind_eq_some_iff.mp shares
    exact backed_combined truthful moves (.inl builds) isA isB isD total.2 isSum.2
  next => cases applies

theorem backed_scale? (truthful : env.Truthful) (applies : scale? expr = some result)
    (backed : Backed env form expr) : Backed env form result := by
  simp [scale?] at applies
  obtain ⟨op, rhs, x, c, ⟨dtype, constType, reads⟩, -, applies⟩ := applies
  obtain ⟨isLhs, isRhs, isExtremum⟩ := backed_asExtremum? reads backed
  have total : NeverFails op ∧ NeverFails op.dual := by
    rcases isExtremum with rfl | rfl <;> simp [NeverFails, BinaryOp.dual]
  have isX : BackedNumber env form x := by grind
  have scaled {inner : Expr} (isInner : BackedNumber env form inner)
      (builds : ((constantLike? x c).bind fun constant => binary? .mul inner constant) = some result) :
      Backed env form result := by
    grind
  have ofConstant (scales : ((scaledConstant? op x c rhs).bind fun inner =>
      (constantLike? x c).bind fun constant => binary? .mul inner constant) = some result) :
      Backed env form result := by
    obtain ⟨inner, isInner, builds⟩ := Option.bind_eq_some_iff.mp scales
    exact scaled (backed_scaledConstant? truthful isInner isX total.1) builds
  split at applies
  next y d isProduct =>
    split at applies
    · obtain ⟨inner, isInner, builds⟩ := Option.bind_eq_some_iff.mp applies
      have isY : BackedNumber env form y := by
        obtain ⟨innerType, innerConst, rfl⟩ := withConst?_eq_some.mp isProduct
        grind
      refine scaled (backedNumber_binary? truthful isInner isX isY ?_) builds
      split
      · exact total.1
      · exact total.2
    · exact ofConstant applies
  next => exact ofConstant applies

theorem rules_backed (truthful : env.Truthful) (evidence : Evidence) (expr : Expr) :
    ∀ rule ∈ rules, Rule.Relates (BackedBy env) evidence expr rule := by
  simp only [rules, List.forall_mem_cons, Rule.pure, Rule.Relates]
  refine ⟨?_, ?_, ?_, ?_, ?_, ?_, by simp⟩
  · intro result applies regular
    have backed : Backed env expr expr := .refl regular
    simp [extremumOfConstants?] at applies
    grind
  · intro result applies regular
    have backed : Backed env expr expr := .refl regular
    simp [absorb?] at applies
    grind
  · intro result applies regular
    have backed : Backed env expr expr := .refl regular
    simp [repeated?] at applies
    grind
  · intro result applies regular
    have backed : Backed env expr expr := .refl regular
    exact backed_commonTerm? truthful applies backed
  · intro result applies regular
    have backed : Backed env expr expr := .refl regular
    exact backed_scale? truthful applies backed
  · intro relation result applies regular
    have backed : Backed env expr expr := .refl regular
    simp [knownExtremum?] at applies
    grind

end Extrema

/-! ### Comparisons -/

namespace Comparisons

@[grind →]
theorem backed_asIntComparison? {lhs rhs : Expr} (reads : asIntComparison? expr = some (op, lhs, rhs))
    (backed : Backed env form expr) :
    BackedNumber env form lhs ∧ BackedNumber env form rhs ∧ op.isComparison = true := by
  simp [asIntComparison?] at reads
  grind

@[grind →]
theorem backed_againstConst? {term : Expr} {number : Int}
    (reads : againstConst? expr = some (op, term, number)) (backed : Backed env form expr) :
    Backed env form term ∧ (op = .lt ∨ op = .le) := by
  simp [againstConst?] at reads
  grind

@[grind →]
theorem backed_normalForm? {number : Int} (truthful : env.Truthful)
    (builds : normalForm? op expr number = some result) (backed : Backed env form expr)
    (compares : op.isComparison = true) : Backed env form result := by
  unfold normalForm? at builds
  grind

@[grind →]
theorem backed_moveLeftConstant? {number : Int} (truthful : env.Truthful)
    (moves : moveLeftConstant? op expr number = some result) (backed : Backed env form expr)
    (compares : op.isComparison = true) : Backed env form result := by
  simp [moveLeftConstant?] at moves
  grind

@[grind →]
theorem backed_moveRightConstant? {number : Int} (truthful : env.Truthful)
    (moves : moveRightConstant? op number expr = some result) (backed : Backed env form expr)
    (compares : op.isComparison = true) : Backed env form result := by
  simp [moveRightConstant?] at moves
  grind

@[grind →]
theorem backed_divideRight? {number : Int} (truthful : env.Truthful)
    (divides : divideRight? op number expr = some result) (backed : Backed env form expr)
    (compares : op.isComparison = true) : Backed env form result := by
  simp [divideRight?] at divides
  grind

theorem backed_divideLeft? {node : Expr} {number : Int} (truthful : env.Truthful)
    (divides : divideLeft? node.dtype op expr number = some result) (backed : Backed env form expr)
    (isNode : Backed env form node) (isBool : node.dtype.isBool = true) : Backed env form result := by
  have truth (truth : Bool) : Backed env form (ofInt node.dtype truth.toNat) :=
    isNode.ofInt_truth isBool truth
  simp [divideLeft?] at divides
  grind

theorem backed_cancelled? {lhs rhs left right : Expr} (cancels : cancelled? op lhs rhs = some (left, right))
    (isLhs : BackedNumber env form lhs) (isRhs : BackedNumber env form rhs) :
    BackedNumber env form left ∧ BackedNumber env form right := by
  unfold cancelled? at cancels
  dsimp only at cancels
  split at cancels
  next a b isA isB => grind
  split at cancels
  next => grind
  split at cancels
  next => grind
  split at cancels
  next =>
    simp at cancels
    grind
  split at cancels
  next =>
    simp at cancels
    grind
  split at cancels
  next =>
    simp at cancels
    grind
  next =>
    simp at cancels
    grind
  next => cases cancels

theorem rules_backed (truthful : env.Truthful) (evidence : Evidence) (expr : Expr) :
    ∀ rule ∈ rules, Rule.Relates (BackedBy env) evidence expr rule := by
  simp only [rules, List.forall_mem_cons, Rule.pure, Rule.Relates]
  refine ⟨?_, ?_, ?_, ?_, ?_, ?_, ?_, ?_, ?_, by simp⟩
  · intro result applies regular
    have backed : Backed env expr expr := .refl regular
    simp [compareDifference?] at applies
    grind
  · intro result applies regular
    have backed : Backed env expr expr := .refl regular
    simp [normalize?] at applies
    grind
  · intro result applies regular
    have backed : Backed env expr expr := .refl regular
    simp [boolEquality?] at applies
    grind
  · intro relation result applies regular
    have backed : Backed env expr expr := .refl regular
    obtain ⟨⟨op, lhs, rhs⟩, reads, applies⟩ := Option.bind_eq_some_iff.mp applies
    obtain ⟨truth, decides, equal⟩ := Option.bind_eq_some_iff.mp applies
    cases equal
    have compares : op.isComparison = true := by
      cases op <;> first | rfl | cases decides
    exact backed.ofInt_truth (backed.regular.isBool_of_asBinary? reads (.inl compares)) truth
  · intro result applies regular
    have backed : Backed env expr expr := .refl regular
    simp [moveConstant?] at applies
    grind
  · intro result applies regular
    have backed : Backed env expr expr := .refl regular
    simp [divideComparison?] at applies
    obtain ⟨op, lhs, rhs, reads, applies⟩ := applies
    obtain ⟨isLhs, isRhs, compares⟩ := backed_asIntComparison? reads backed
    have isBinary : expr.asBinary? = some (op, lhs, rhs) := (Option.filter_eq_some_iff.mp reads).1
    have isBool := backed.regular.isBool_of_asBinary? isBinary (.inl compares)
    split at applies
    · exact backed_divideLeft? truthful applies isLhs.toBacked backed isBool
    · grind
    · cases applies
  · intro result applies regular
    have backed : Backed env expr expr := .refl regular
    simp [cancelComparison?] at applies
    obtain ⟨op, lhs, rhs, reads, left, right, cancels, builds⟩ := applies
    obtain ⟨isLhs, isRhs, compares⟩ := backed_asIntComparison? reads backed
    obtain ⟨isLeft, isRight⟩ := backed_cancelled? cancels isLhs isRhs
    exact backed_binary? truthful builds isLeft.toBacked isRight.toBacked (.inl compares)
  · intro result applies regular
    have backed : Backed env expr expr := .refl regular
    simp [dropRemainder?] at applies
    grind
  · intro result applies regular
    have backed : Backed env expr expr := .refl regular
    simp [compareFloorDiv?] at applies
    grind

end Comparisons

/-! ### Conditions, choices and conversions -/

namespace Conditions

@[grind →]
theorem backed_negation? (truthful : env.Truthful) (negates : negation? expr = some result)
    (backed : Backed env form expr) : Backed env form result := by
  unfold negation? at negates
  grind

theorem knownRules_backed (evidence : Evidence) (expr : Expr) :
    ∀ rule ∈ knownRules, Rule.Relates (BackedBy env) evidence expr rule := by
  simp only [knownRules, List.forall_mem_cons, Rule.Relates]
  refine ⟨?_, by simp⟩
  intro result applies regular
  simp [knownLiteral?] at applies
  grind

theorem rules_backed (truthful : env.Truthful) (evidence : Evidence) (expr : Expr) :
    ∀ rule ∈ rules, Rule.Relates (BackedBy env) evidence expr rule := by
  simp only [rules, List.forall_mem_cons, Rule.pure, Rule.Relates]
  refine ⟨?_, ?_, ?_, ?_, ?_, ?_, by simp⟩
  all_goals
    intro result applies regular
    have backed : Backed env expr expr := .refl regular
  · simp [doubleNegation?] at applies
    grind
  · simp [negateComparison?] at applies
    grind
  · simp [deMorgan?] at applies
    grind
  · obtain ⟨⟨op, a, b⟩, reads, applies⟩ := Option.bind_eq_some_iff.mp applies
    simp at applies
    obtain ⟨⟨isLogical, -⟩, rfl⟩ := applies
    exact backed.ofInt_truth (backed.regular.isBool_of_asBinary? reads (.inr isLogical)) _
  · simp [contradiction?] at applies
    obtain ⟨op, first, second, reads, applies⟩ := applies
    simp [asRanges?] at reads
    have truth (isLogical : op.isLogical = true) (truth : Bool) :
        Backed env expr (ofInt expr.dtype truth.toNat) := by
      obtain ⟨a, b, shape, -⟩ := reads
      exact backed.ofInt_truth (backed.regular.isBool_of_asBinary? (asBinary?_eq_some.mpr shape)
        (.inr isLogical)) truth
    split at applies
    · simp at applies
      exact applies.2 ▸ truth rfl false
    · simp at applies
      exact applies.2 ▸ truth rfl true
    · cases applies
  · simp [mergeRanges?] at applies
    grind

end Conditions

/-! ### Vectors -/

namespace Lanes

theorem neverFails_of_isSum (isSum : op = .add ∨ op = .sub) : NeverFails op :=
  isSum.imp id .inl

/-- What is computed of broadcasts has a value if the node does, since it is computed in every lane. -/
theorem backed_broadcastOp? (truthful : env.Truthful) (applies : broadcastOp? expr = some result)
    (regular : expr.Regular) : Backed env expr result := by
  simp [broadcastOp?] at applies
  obtain ⟨op, a, count, b, ⟨vector, count', otherType, dtype, rfl⟩, scalar, builds, rfl⟩ := applies
  have isLeft : (broadcast vector a count).Regular := regular.child (by simp [children])
  have isRight : (broadcast otherType b count').Regular := regular.child (by simp [children])
  obtain ⟨same, -, logical⟩ := regular.same_of_binary
  cases same
  obtain ⟨isA, several, rfl⟩ := isLeft.typed.of_broadcast
  obtain ⟨isB, -, rfl⟩ := isRight.typed.of_broadcast
  have sameScalar : a.dtype = b.dtype := isA.isType.trans isB.isType.symm
  obtain ⟨rfl, logicalScalar⟩ := binary?_eq_some sameScalar builds
  have isScalar : (binary (binaryType op a.dtype) op a b).Regular := by
    refine regular_binary (isLeft.child (List.mem_singleton_self a))
      (isRight.child (List.mem_singleton_self b)) sameScalar (fun arithmetic isBool => ?_) logicalScalar
    refine regular.not_mixesTruths ⟨arithmetic, ?_⟩
    rw [regular.same_of_binary.2.1, binaryType_of_arithmetic arithmetic]
    rw [isA.isType] at isBool
    exact isBool
  have single : a.dtype.lanes = 1 := congrArg DataType.lanes isA.isType
  refine backed_mkBroadcast ⟨isScalar, fun value evaluated => ?_⟩
    ((lanes_binaryType op a.dtype).trans single) several
  obtain ⟨lanes, rfl, length, areLanes⟩ :=
    (lanewise_broadcast.binary several lanewise_broadcast) value evaluated
  have first := areLanes 0 (by omega)
  rw [List.getElem?_eq_getElem (by omega)] at first
  obtain ⟨x, isX, rest⟩ := Option.bind_eq_some_iff.mp first.symm
  obtain ⟨y, isY, computed⟩ := Option.bind_eq_some_iff.mp rest
  have made : (binary (binaryType op a.dtype) op a b).evalExact env =
      Scalar.binary? .unbounded a.dtype.element op x y :=
    evaluate_binary_scalar ((lanes_binaryType op _).trans single) isX isY
      (isA.isType ▸ isA.ofKind truthful.kinded isX) (isB.isType ▸ isB.ofKind truthful.kinded isY)
  refine ⟨lanes[0], made.trans ?_⟩
  rw [isA.isType]
  exact computed

theorem rules_backed (truthful : env.Truthful) (evidence : Evidence) (expr : Expr) :
    ∀ rule ∈ rules, Rule.Relates (BackedBy env) evidence expr rule := by
  simp only [rules, List.forall_mem_cons, Rule.pure, Rule.Relates]
  refine ⟨fun _ applies regular => backed_broadcastOp? truthful applies regular, ?_, ?_, ?_, ?_, ?_,
    by simp⟩
  all_goals
    intro result applies regular
    have backed : Backed env expr expr := .refl regular
  · simp [rampAddRamp?] at applies
    obtain ⟨op, a, s, count, b, t, ⟨vector, count', secondType, dtype, rfl⟩, isSum, base, buildsBase,
      stride, buildsStride, builds⟩ := applies
    have total : NeverFails op := neverFails_of_isSum isSum
    obtain ⟨isLeft, isRight, -⟩ := backed.of_arithmetic (.inl total)
    grind
  · obtain ⟨dtype, op, vector, a, s, count, secondType, b, count', base, isSum, shape⟩ :=
      rampAddBroadcast?_cases applies
    have total : NeverFails op := neverFails_of_isSum isSum
    rcases shape with ⟨rfl, buildsBase, builds⟩ | ⟨rfl, buildsBase, stride, builds, isStride⟩
    · obtain ⟨isLeft, isRight, -⟩ := backed.of_arithmetic (.inl total)
      grind
    · obtain ⟨isLeft, isRight, -⟩ := backed.of_arithmetic (.inl total)
      rcases isStride with ⟨rfl, rfl⟩ | ⟨rfl, buildsStride⟩
      · grind
      · obtain ⟨-, isS, -⟩ := isRight.toBacked.of_ramp
        have isZero := isS.ofInt_zero
        grind
  · obtain ⟨dtype, lhs, rhs, a, s, count, b, base, stride, vector, secondType, count', rfl, operands,
      buildsBase, buildsStride, builds⟩ := rampMulBroadcast?_cases applies
    grind
  · simp [rampZeroStride?] at applies
    grind [backed_mkBroadcast]
  · simp [broadcastUnary?] at applies
    split at applies
    next dtype vector a count =>
      obtain ⟨scalar, builds, equal⟩ := Option.bind_eq_some_iff.mp applies
      cases equal
      obtain ⟨isA, single, several, rfl⟩ := backed.of_not.of_broadcast
      have typed := regular.typed
      rw [WellTyped] at typed
      obtain ⟨-, rfl, -⟩ := typed
      have isScalar := backed_not? truthful builds isA
      obtain ⟨-, rfl⟩ := not?_eq_some builds
      exact backed_mkBroadcast isScalar single several
    next dtype vector a count =>
      cases applies
      obtain ⟨isA, single, several, rfl⟩ := backed.of_cast.of_broadcast
      have typed := regular.typed
      rw [WellTyped] at typed
      obtain ⟨-, valid, same⟩ := typed
      have isScalar := backed_cast truthful isA (valid_withLanes valid le_rfl) regular.notFloat single.symm
      exact backed_mkBroadcast isScalar rfl (several.trans_eq same.symm)
    next => cases applies

end Lanes

/-! ### Identities -/

namespace Identities

theorem backed_foldInts? {dtype : DataType} {left right : Int}
    (folds : foldInts? dtype op left right = some result) (valid : dtype.Valid) :
    Backed env form result := by
  have ofConstant {number : Int} (builds : constant? dtype number = some result) :
      Backed env form result := (backedNumber_constant? valid builds).1.toBacked
  cases op with
  | add | sub | mul | min | max => exact ofConstant folds
  | truncDiv | truncMod | floorDiv | floorMod =>
    exact ofConstant (Option.ite_none_left_eq_some.mp folds).2
  | eq | ne | lt | le | gt | ge =>
    cases folds
    exact backed_ofBool _
  | and | or => cases folds

theorem backed_foldConstants? (applies : foldConstants? expr = some result) (regular : expr.Regular) :
    Backed env form result := by
  unfold foldConstants? at applies
  split at applies
  next nodeType op dtype left otherType right =>
    have isConst : (intConst dtype left).Regular := regular.child (by simp [children])
    exact backed_foldInts? applies isConst.typed.valid
  next nodeType op dtype left otherType right =>
    have isConst : (floatConst dtype left).Regular := regular.child (by simp [children])
    have typed := isConst.typed
    rw [WellTyped] at typed
    cases typed.2.1.symm.trans isConst.notFloat
  next =>
    unfold foldBools? at applies
    split at applies <;> cases applies <;> exact backed_ofBool _
  next =>
    cases applies
    exact backed_ofBool _
  next => cases applies

theorem rules_kept (truthful : env.Truthful) (evidence : Evidence) (expr : Expr) :
    ∀ rule ∈ rules, Rule.Relates (KeptBy env) evidence expr rule := by
  simp only [rules, List.forall_mem_cons, Rule.pure, Rule.Relates]
  refine ⟨fun _ applies regular _ _ => backed_foldConstants? applies regular, ?_, ?_, ?_, ?_, ?_, ?_, ?_,
    ?_, ?_, ?_, by simp⟩
  · intro result fits applies regular _ _
    have backed : Backed env expr expr := .refl regular
    simp [constantToRight?] at applies
    obtain ⟨op, lhs, rhs, ⟨dtype, rfl⟩, builds⟩ := applies
    obtain ⟨isLhs, isRhs⟩ := backed.of_binary
    by_cases arithmetic : NeverFails op ∨ IsDivision op
    · obtain ⟨left, right, -⟩ := backed.of_arithmetic arithmetic
      have total : NeverFails op := by
        refine arithmetic.resolve_right fun isDivision => ?_
        rcases isDivision with rfl | rfl | rfl | rfl <;> cases fits
      exact (backedNumber_binary? truthful builds right left total).toBacked
    · refine backed_binary? truthful builds isRhs isLhs ?_
      cases op <;> simp [NeverFails, IsDivision] at arithmetic <;> decide
  all_goals
    intro result applies regular fitsOne _
    have backed : Backed env expr expr := .refl regular
  · simp [logicalConstant?] at applies
    grind
  · simp [addZero?] at applies
    grind
  · simp [subtractSelf?] at applies
    grind
  · simp [multiplyOne?] at applies
    grind
  · simp [multiplyZero?] at applies
    grind
  · simp [modOne?] at applies
    grind
  · simp [divideSelf?] at applies
    obtain ⟨op, operand, -, ⟨-, isInteger⟩, -, rfl⟩ := applies
    exact backed_ofInt regular.typed.valid regular.notFloat (fitsOne.fits_one isInteger)
  · obtain ⟨⟨op, lhs, rhs⟩, reads, applies⟩ := Option.bind_eq_some_iff.mp applies
    obtain ⟨isLhs, -⟩ := Backed.of_asBinary? reads backed
    obtain ⟨-, -, applies⟩ := Option.bind_eq_some_iff.mp applies
    split at applies
    · cases applies
      exact isLhs
    · simp at applies
      obtain ⟨⟨-, compares⟩, rfl⟩ := applies
      exact backed.ofInt_truth (backed.regular.isBool_of_asBinary? reads (.inl compares)) _
  · simp [knownValue?] at applies
    grind

end Identities

/-! ### Choices -/

namespace Choices

variable {cond onTrue onFalse : Expr}

theorem Regular.of_asChoice? (regular : expr.Regular)
    (reads : asChoice? expr = some (cond, onTrue, onFalse)) :
    cond.Regular ∧ onTrue.Regular ∧ onFalse.Regular := by
  rcases asChoice?_eq_some reads with ⟨dtype, rfl⟩ | ⟨dtype, rfl⟩
  · exact ⟨regular.child (by simp [children]), regular.child (by simp [children]),
      regular.child (by simp [children])⟩
  · exact ⟨regular.child (by simp [children]), regular.child (by simp [children]),
      regular.child (by simp [children])⟩

/-- A choice of regular parts is regular. -/
theorem IsChoice.regular (choice : IsChoice expr cond onTrue onFalse)
    (notFloat : expr.dtype.isFloat = false) (isCond : cond.Regular) (taken : onTrue.Regular)
    (refused : onFalse.Regular) : expr.Regular := by
  have typed := choice.typed
  rcases asChoice?_eq_some choice.found with ⟨dtype, rfl⟩ | ⟨dtype, rfl⟩
  · refine regular_iff.mpr ⟨typed, notFloat, id, ?_⟩
    simpa [children] using ⟨isCond, taken, refused⟩
  · refine regular_iff.mpr ⟨typed, notFloat, fun mixes => mixes.1 rfl, ?_⟩
    simpa [children] using ⟨isCond, taken, refused⟩

theorem regular_rebuild? {cond' taken other : Expr} (choice : IsChoice expr cond onTrue onFalse)
    (regular : expr.Regular) (isCond : cond'.Regular) (condType : cond'.dtype = cond.dtype)
    (isTaken : taken.Regular) (takenType : taken.dtype = expr.dtype) (isOther : other.Regular)
    (otherType : other.dtype = expr.dtype) (builds : rebuild? expr cond' taken other = some result) :
    result.Regular := by
  have built := @IsChoice.rebuild? .unbounded
  obtain ⟨rebuilt, sameType, -⟩ := built choice isCond.typed condType isTaken.typed takenType isOther.typed
    otherType builds
  exact rebuilt.regular (sameType ▸ regular.notFloat) isCond isTaken isOther

theorem regular_ofNegated? (applies : ofNegated? expr = some result) (regular : expr.Regular) :
    result.Regular := by
  simp [ofNegated?] at applies
  obtain ⟨onTrue, onFalse, cond, ⟨notType, found⟩, builds⟩ := applies
  have choice := isChoice_of_asChoice? found regular.typed
  obtain ⟨isNot, taken, refused⟩ := Regular.of_asChoice? regular found
  have typed := isNot.typed
  rw [WellTyped] at typed
  exact regular_rebuild? choice regular (isNot.child (List.mem_singleton_self cond)) typed.2.1.symm refused
    choice.falseType taken choice.trueType builds

theorem regular_ofNested? (applies : ofNested? expr = some result) (regular : expr.Regular) :
    result.Regular := by
  obtain ⟨⟨cond, onTrue, onFalse⟩, found, applies⟩ := Option.bind_eq_some_iff.mp applies
  have choice := isChoice_of_asChoice? found regular.typed
  obtain ⟨isCond, isTrue, isFalse⟩ := Regular.of_asChoice? regular found
  dsimp only at applies
  split at applies
  next inner taken other isInner =>
    obtain ⟨isNested, -⟩ := Option.filter_eq_some_iff.mp isInner
    have nested := isChoice_of_asChoice? isNested isTrue.typed
    exact regular_rebuild? choice regular isCond rfl (Regular.of_asChoice? isTrue isNested).2.1
      (nested.trueType.trans choice.trueType) isFalse choice.falseType applies
  next inner taken other _ isInner =>
    obtain ⟨isNested, -⟩ := Option.filter_eq_some_iff.mp isInner
    have nested := isChoice_of_asChoice? isNested isFalse.typed
    exact regular_rebuild? choice regular isCond rfl isTrue choice.trueType
      (Regular.of_asChoice? isFalse isNested).2.2 (nested.falseType.trans choice.falseType) applies
  next => cases applies

/-- Both values of a node that chooses are evaluated. -/
theorem backed_toMinMax? (truthful : env.Truthful) (applies : toMinMax? expr = some result)
    (regular : expr.Regular) : Backed env expr result := by
  have backed : Backed env expr expr := .refl regular
  unfold toMinMax? at applies
  split at applies
  next dtype cond onTrue onFalse =>
    obtain ⟨_, guarded, applies⟩ := Option.bind_eq_some_iff.mp applies
    have isInteger : dtype.isInteger = true := by simpa using guarded
    have number : BackedNumber env _ (select dtype cond onTrue onFalse) := ⟨backed, isInteger⟩
    simp at applies
    grind
  next => cases applies

theorem rules_kept (truthful : env.Truthful) (evidence : Evidence) (expr : Expr) :
    ∀ rule ∈ rules, Rule.Relates (KeptBy env) evidence expr rule := by
  have kept {step : Step} {apply : Expr → Option Expr} (member : .pure step apply ∈ rules)
      (ofRegular : ∀ result, apply expr = some result → expr.Regular → result.Regular) :
      Rule.Relates (KeptBy env) evidence expr (.pure step apply) := by
    intro result applies regular _ exposed
    refine ⟨ofRegular result applies regular, fun value evaluated => ⟨value, ?_⟩⟩
    have rewrites : Rule.Rewrites ⟨evidence, fun _ _ => .unknown⟩ expr result (.pure step apply) := applies
    exact evaluate_of_rewrites member regular.typed truthful.kinded (passesIntegers_unbounded env) rewrites
      evaluated (exposed value evaluated)
  intro rule member
  have isRule := member
  simp only [rules, List.mem_cons, List.not_mem_nil, or_false] at member
  rcases member with rfl | rfl | rfl | rfl | rfl
  · refine kept isRule fun result applies regular => ?_
    obtain ⟨⟨cond, onTrue, onFalse⟩, found, applies⟩ := Option.bind_eq_some_iff.mp applies
    obtain ⟨truth, -, equal⟩ := Option.bind_eq_some_iff.mp applies
    obtain ⟨-, isTrue, isFalse⟩ := Regular.of_asChoice? regular found
    cases equal
    cases truth
    · exact isFalse
    · exact isTrue
  · refine kept isRule fun result applies regular => ?_
    simp [ofSame?] at applies
    obtain ⟨cond, found⟩ := applies
    exact (Regular.of_asChoice? regular found).2.1
  · exact kept isRule fun result applies regular => regular_ofNegated? applies regular
  · exact kept isRule fun result applies regular => (backed_toMinMax? truthful applies regular).regular
  · exact kept isRule fun result applies regular => regular_ofNested? applies regular

end Choices

/-! ### Conversions -/

namespace Conversions

theorem backed_foldCast? (applies : foldCast? expr = some result) (regular : expr.Regular)
    (fitsOne : result.FitsOne) : Backed env form result := by
  cases expr with
  | cast dtype value =>
    obtain ⟨-, folds⟩ := Option.ite_none_right_eq_some.mp applies
    have notFloat : dtype.isFloat = false := regular.notFloat
    have valid : dtype.Valid := regular.typed.valid
    unfold convert? at folds
    split at folds
    next source number =>
      split at folds
      next =>
        cases folds
        exact backed_ofBool _
      next =>
        rw [if_neg (by simp [notFloat])] at folds
        obtain ⟨fits, equal⟩ := Option.ite_none_right_eq_some.mp folds
        cases equal
        exact backed_ofInt valid notFloat fits
    next source number =>
      have isConst : (floatConst source number).Regular := regular.child (by simp [children])
      have typed := isConst.typed
      rw [WellTyped] at typed
      cases typed.2.1.symm.trans isConst.notFloat
    next source truth =>
      obtain ⟨notBool, equal⟩ := Option.ite_none_left_eq_some.mp folds
      cases equal
      refine backed_ofInt valid notFloat ?_
      cases truth with
      | false => exact DataType.fits_zero notFloat
      | true => exact fitsOne.fits_one (DataType.isInteger_of_other notFloat (by simpa using notBool))
    next => cases folds
  | _ => cases applies

theorem backed_collapseCast? {evidence : Evidence} (truthful : env.Truthful)
    (applies : collapseCast? evidence expr = some result) (regular : expr.Regular) :
    Backed env expr result := by
  have backed : Backed env expr expr := .refl regular
  unfold collapseCast? at applies
  split at applies
  next outer middle x =>
    simp at applies
    obtain ⟨⟨⟨outerInteger, -⟩, -⟩, -, rfl⟩ := applies
    have isMiddle := backed.of_cast
    have isX := isMiddle.of_cast
    split
    next => exact isX
    next =>
      have typed := regular.typed
      have innerTyped := isMiddle.regular.typed
      rw [WellTyped] at typed innerTyped
      exact backed_cast truthful isX typed.2.1 regular.notFloat (typed.2.2.trans innerTyped.2.2)
  next => cases applies

theorem rules_kept (truthful : env.Truthful) (evidence : Evidence) (expr : Expr) :
    ∀ rule ∈ rules, Rule.Relates (KeptBy env) evidence expr rule := by
  simp only [rules, List.forall_mem_cons, Rule.pure, Rule.Relates]
  refine ⟨fun _ applies regular fitsOne _ => backed_foldCast? applies regular fitsOne, ?_,
    fun _ applies regular _ _ => backed_collapseCast? truthful applies regular, by simp⟩
  intro result applies regular _ _
  unfold removeCast? at applies
  split at applies
  next dtype value =>
    obtain ⟨-, equal⟩ := Option.ite_none_right_eq_some.mp applies
    cases equal
    exact (Backed.refl regular).of_cast
  next => cases applies

end Conversions

/-! ### Bindings -/

namespace Bindings

theorem rules_backed (evidence : Evidence) (expr : Expr) :
    ∀ rule ∈ rules, Rule.Relates (BackedBy env) evidence expr rule := by
  have backed {step : Step} {apply : Expr → Option Expr} (member : .pure step apply ∈ rules)
      (ofRegular : ∀ result, apply expr = some result → expr.Regular → result.Regular) :
      Rule.Relates (BackedBy env) evidence expr (.pure step apply) := by
    intro result applies regular
    refine ⟨ofRegular result applies regular, fun value evaluated => ⟨value, ?_⟩⟩
    have rewrites : Rule.Rewrites ⟨evidence, fun _ _ => .unknown⟩ expr result (.pure step apply) := applies
    exact evaluate_of_rewrites member regular.typed rewrites evaluated
  intro rule member
  have isRule := member
  simp only [rules, List.mem_cons, List.not_mem_nil, or_false] at member
  rcases member with rfl | rfl
  · refine backed isRule fun result applies regular => ?_
    unfold drop? at applies
    split at applies
    next dtype name bound body =>
      obtain ⟨-, equal⟩ := Option.ite_none_left_eq_some.mp applies
      cases equal
      exact (regular_letIn.mp regular).2.1
    next => cases applies
  · refine backed isRule fun result applies regular => ?_
    unfold expand? at applies
    split at applies
    next dtype name bound body =>
      obtain ⟨-, equal⟩ := Option.ite_none_right_eq_some.mp applies
      cases equal
      obtain ⟨isBound, isBody, isType, -⟩ := regular_letIn.mp regular
      refine (regular_substituteWithin (fun other value found => ?_) _ _ isBody).1
      obtain ⟨rfl, equal⟩ := Option.ite_none_right_eq_some.mp found
      cases equal
      exact ⟨isBound, isType⟩
    next => cases applies

end Bindings

/-! ### All rules -/

/-- What is true of whatever a rule makes is true of what it rewrites the expression to. -/
theorem Rule.Relates.of_rewrites {relation : Expr → Expr → Prop} {answers : Answers} {rule : Rule}
    (relates : Rule.Relates relation answers.evidence expr rule)
    (rewrites : rule.Rewrites answers expr result) : relation result expr := by
  cases rule with
  | plain => exact relates result rewrites
  | counted => exact relates result rewrites.1 rewrites.2
  | comparing =>
    obtain ⟨lhs, rhs, -, concludes⟩ := rewrites
    exact relates _ result concludes

theorem rulesOfOp_backed (truthful : env.Truthful) (evidence : Evidence) (dtype : DataType) (op : BinaryOp)
    (expr : Expr) : ∀ rule ∈ rulesOfOp dtype op, Rule.Relates (BackedBy env) evidence expr rule := by
  intro rule member
  unfold rulesOfOp at member
  dsimp only at member
  split at member
  · obtain ⟨-, member⟩ := List.mem_ite_nil_right.mp member
    split at member
    · exact Sums.sumRules_backed truthful evidence expr rule member
    · exact Sums.differenceRules_backed truthful evidence expr rule member
    · exact Sums.productRules_backed truthful evidence expr rule member
    · exact Quotients.quotientRules_backed truthful evidence expr rule member
    · exact Quotients.quotientRules_backed truthful evidence expr rule member
    · exact Quotients.remainderRules_backed truthful evidence expr rule member
    · exact Quotients.remainderRules_backed truthful evidence expr rule member
    · exact Extrema.rules_backed truthful evidence expr rule member
    · exact Extrema.rules_backed truthful evidence expr rule member
    · cases member
  · exact Comparisons.rules_backed truthful evidence expr rule member
  · exact Conditions.rules_backed truthful evidence expr rule member

/-- What a rule makes of a regular form is regular and has an exact value where the form has one, if it
is no constant that its type cannot hold and exposes no branch without a value. -/
theorem rulesFor_kept (truthful : env.Truthful) (evidence : Evidence) (expr : Expr) :
    ∀ rule ∈ rulesFor expr, Rule.Relates (KeptBy env) evidence expr rule := by
  intro rule member
  have backed (relates : Rule.Relates (BackedBy env) evidence expr rule) :
      Rule.Relates (KeptBy env) evidence expr rule := relates.mono fun _ => BackedBy.keptBy
  simp only [rulesFor, List.mem_append, List.mem_ite_nil_right] at member
  rcases member with ((general | ⟨-, vectors⟩) | known) | ofKind
  · exact Identities.rules_kept truthful evidence expr rule general
  · exact backed (Lanes.rules_backed truthful evidence expr rule vectors)
  · exact backed (Conditions.knownRules_backed evidence expr rule known)
  · unfold rulesOfKind at ofKind
    split at ofKind
    · exact backed (rulesOfOp_backed truthful evidence _ _ _ rule ofKind)
    · exact backed (Conditions.rules_backed truthful evidence _ rule ofKind)
    · exact Choices.rules_kept truthful evidence _ rule ofKind
    · exact Choices.rules_kept truthful evidence _ rule ofKind
    · exact Conversions.rules_kept truthful evidence _ rule ofKind
    · exact backed (Bindings.rules_backed evidence _ rule ofKind)
    · cases ofKind

end Reduction
end IndexAlgebra
