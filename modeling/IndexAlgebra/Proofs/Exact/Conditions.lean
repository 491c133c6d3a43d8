/-
This file proves that two conditions on one integer are merged rightly where the ranges that they are
read as have the ends that the conditions have. An end at or beyond `2^63 - 1` in magnitude is cut
off, and what is left is taken to be unbounded there. That does no harm if the condition is true of
every word, or if the type has no such words.
-/
import IndexAlgebra.Proofs.Exact.Comparisons
import IndexAlgebra.Reduction.Simplifier

namespace IndexAlgebra

/-! ### Ranges -/

namespace Bound

variable {first second : Bound} {value : Int}

/-- A range that is not cut off at an inner end has an infinite one only where it is unbounded. -/
structure Proper (range : Bound) : Prop where
  lower : range.lower ≠ .posInf
  upper : range.upper ≠ .negInf

theorem not_contains_of_areDisjoint (disjoint : Reduction.Conditions.areDisjoint first second = true)
    (isFirst : first.contains value = true) : second.contains value = false := by
  by_contra isSecond
  have both := contains_iff.mp (contains_intersect.mpr ⟨isFirst, by simpa using isSecond⟩)
  exact of_decide_eq_true disjoint (Limit.le_trans both.1 both.2)

/-- Of two ranges that meet without a gap, one has no lower end and the other has no upper end. -/
theorem contains_or_of_meet (isLower : first.lower = .negInf) (isUpper : second.upper = .posInf)
    (firstProper : first.Proper) (secondProper : second.Proper)
    (meet : ∀ last next, first.upper = .finite last → second.lower = .finite next → next ≤ last + 1) :
    first.contains value = true ∨ second.contains value = true := by
  simp only [contains_iff, isLower, isUpper, Limit.negInf_le, Limit.le_posInf, true_and, and_true]
  have firstUpper := firstProper.upper
  have secondLower := secondProper.lower
  cases isLast : first.upper with
  | negInf => exact absurd isLast firstUpper
  | posInf => exact .inl (Limit.le_posInf _)
  | finite last =>
    cases isNext : second.lower with
    | posInf => exact absurd isNext secondLower
    | negInf => exact .inr (Limit.negInf_le _)
    | finite next =>
      have adjacent := meet last next isLast isNext
      simp only [Limit.finite_le_finite]
      omega

theorem contains_or_of_coverAll (cover : Reduction.Conditions.coverAll first second = true)
    (firstProper : first.Proper) (secondProper : second.Proper) :
    first.contains value = true ∨ second.contains value = true := by
  unfold Reduction.Conditions.coverAll at cover
  split at cover
  next low high chosen =>
    simp only [Bool.and_eq_true, beq_iff_eq] at cover
    obtain ⟨⟨isLower, isUpper⟩, meets⟩ := cover
    have meet : ∀ last next, low.upper = .finite last → high.lower = .finite next → next ≤ last + 1 := by
      intro last next isLast isNext
      rw [isLast, isNext] at meets
      exact of_decide_eq_true meets
    split at chosen
    · cases chosen
      exact contains_or_of_meet isLower isUpper firstProper secondProper meet
    · cases chosen
      exact (contains_or_of_meet isLower isUpper secondProper firstProper meet).symm

end Bound

namespace Reduction.Conditions

open IndexAlgebra.Expr Word

/-- The ends that the range of a comparison with a constant has are those that the comparison has. An
end beyond the words is no end. -/
def KeepsEnds (op : BinaryOp) (value : Int) : Prop :=
  match op with
  | .lt => Inside (value - 1)
  | .le => Inside value ∨ greatest ≤ value
  | .gt => Inside (value + 1)
  | .ge => Inside value ∨ value ≤ least
  | _ => Inside value

instance (op : BinaryOp) (value : Int) : Decidable (KeepsEnds op value) := by
  unfold KeepsEnds
  split <;> infer_instance

variable {op : BinaryOp} {range : Bound} {value number : Int}

/-- A range that keeps its ends is proper, and holds the words of which the comparison is true. -/
theorem exact_of_rangeTo? (kept : KeepsEnds op value) (found : rangeTo? op value = some range) :
    range.Proper ∧ ∀ number, Fits number →
      op.onLane number value = some ((range.contains number).toNat : Int) := by
  have verdict {holds : Prop} [Decidable holds] {number : Int}
      (same : holds ↔ range.lower ≤ .finite number ∧ .finite number ≤ range.upper) :
      some ((decide holds).toNat : Int) = some ((range.contains number).toNat : Int) :=
    congrArg (fun truth : Bool => some (truth.toNat : Int)) (decide_eq_decide.mpr same)
  cases op <;> cases found
  case lt =>
    have isUpper : Limit.ofInt (value - 1) = .finite (value - 1) := Limit.ofInt_of_inside kept
    refine ⟨⟨by simp, by simp [isUpper]⟩, fun number _ => verdict ?_⟩
    simp only [isUpper, Limit.negInf_le, Limit.finite_le_finite, true_and]
    omega
  case gt =>
    have isLower : Limit.ofInt (value + 1) = .finite (value + 1) := Limit.ofInt_of_inside kept
    refine ⟨⟨by simp [isLower], by simp⟩, fun number _ => verdict ?_⟩
    simp only [isLower, Limit.le_posInf, Limit.finite_le_finite, and_true]
    omega
  case eq =>
    have isEnd : Limit.ofInt value = .finite value := Limit.ofInt_of_inside kept
    refine ⟨⟨by simp [Bound.point, Bound.ofInts, isEnd], by simp [Bound.point, Bound.ofInts, isEnd]⟩,
      fun number _ => verdict ?_⟩
    simp only [Bound.point, Bound.ofInts, isEnd, Limit.finite_le_finite]
    omega
  case le =>
    rcases kept with inside | beyond
    · have isUpper : Limit.ofInt value = .finite value := Limit.ofInt_of_inside inside
      refine ⟨⟨by simp, by simp [isUpper]⟩, fun number _ => verdict ?_⟩
      simp only [isUpper, Limit.negInf_le, Limit.finite_le_finite, true_and]
    · have isUpper : Limit.ofInt value = .posInf := if_pos beyond
      refine ⟨⟨by simp, by simp [isUpper]⟩, fun number word => verdict ?_⟩
      simp only [isUpper, Limit.negInf_le, Limit.le_posInf, and_self, iff_true]
      exact Int.le_trans word.2 beyond
  case ge =>
    rcases kept with inside | beyond
    · have isLower : Limit.ofInt value = .finite value := Limit.ofInt_of_inside inside
      refine ⟨⟨by simp [isLower], by simp⟩, fun number _ => verdict ?_⟩
      simp only [isLower, Limit.le_posInf, Limit.finite_le_finite, and_true]
    · have isLower : Limit.ofInt value = .negInf := by
        unfold least at beyond
        rw [Limit.ofInt, if_neg (by unfold greatest; omega), if_pos (by unfold greatest; omega)]
      refine ⟨⟨by simp [isLower], by simp⟩, fun number word => verdict ?_⟩
      simp only [isLower, Limit.negInf_le, Limit.le_posInf, and_self, iff_true]
      exact Int.le_trans beyond word.1

/-- The integers that a type of fewer than 63 bits holds are far from the greatest word. -/
theorem small_of_fits {dtype : DataType} (isInteger : dtype.isInteger = true) (narrow : dtype.bits ≤ 62)
    (fits : dtype.fits value = true) : -twoPow 62 ≤ value ∧ value ≤ twoPow 62 := by
  obtain ⟨code, bits, lanes⟩ := dtype
  have full : twoPow bits ≤ twoPow 62 := Bound.twoPow_mono narrow
  have half : twoPow (bits - 1) ≤ twoPow 62 := Bound.twoPow_mono (by simp only at narrow; omega)
  cases code with
  | int =>
    simp only [DataType.fits, DataType.minInt?, DataType.maxInt?, decide_eq_true_eq] at fits narrow
    rw [if_neg (by omega), if_neg (by omega)] at fits
    omega
  | uint =>
    simp only [DataType.fits, DataType.minInt?, DataType.maxInt?, decide_eq_true_eq] at fits narrow
    rw [if_neg (by omega)] at fits
    omega
  | float | bfloat | bool => contradiction

theorem keepsEnds_of_small (op : BinaryOp) (small : -twoPow 62 ≤ value ∧ value ≤ twoPow 62) :
    KeepsEnds op value := by
  have power : (twoPow 62 : Int) = 4611686018427387904 := by decide
  have inside {value : Int} (low : -4611686018427387905 ≤ value) (high : value ≤ 4611686018427387905) :
      Inside value := by
    unfold Inside greatest
    omega
  rw [power] at small
  unfold KeepsEnds
  split
  case h_2 | h_4 => exact .inl (inside (by omega) (by omega))
  all_goals exact inside (by omega) (by omega)

/-! ### Conditions as ranges -/

variable {check : RangeCheck} [check.Lawful] {env : Environment}
  {expr cond x a b result lhs rhs : Expr} {dtype : DataType} {found : Value}

/-- The comparison with a constant that a condition is, with the constant on the right. -/
def comparedConst? (cond : Expr) : Option (BinaryOp × Int) := do
  let (op, lhs, rhs) ← cond.asBinary?
  match lhs.asInt?, rhs.asInt? with
  | none, some value => return (op, value)
  | some value, none => return (← op.flip?, value)
  | _, _ => none

/-- The range that the condition is read as has the ends that the condition has. -/
def KeepsRange (cond : Expr) : Prop :=
  ∀ op value, comparedConst? cond = some (op, value) → KeepsEnds op value

theorem isComparison_of_rangeTo? (isRange : rangeTo? op value = some range) :
    op.isComparison = true := by
  cases op <;> first | rfl | cases isRange

/-- A condition that is read as a range compares the integer with a constant. -/
theorem comparison_of_asRange? (isRange : asRange? cond = some (x, range)) :
    ∃ dtype op lhs rhs flipped value, cond = binary dtype op lhs rhs ∧
      lhs.dtype.isInteger = true ∧ lhs.dtype.lanes = 1 ∧ op.isComparison = true ∧
      comparedConst? cond = some (flipped, value) ∧ rangeTo? flipped value = some range ∧
      ((x = lhs ∧ flipped = op ∧ rhs.asInt? = some value) ∨
        x = rhs ∧ op.flip? = some flipped ∧ lhs.asInt? = some value) := by
  obtain ⟨⟨op, lhs, rhs⟩, isBinary, applies⟩ := Option.bind_eq_some_iff.mp isRange
  obtain ⟨_, guarded, applies⟩ := Option.bind_eq_some_iff.mp applies
  obtain ⟨dtype, rfl⟩ := asBinary?_eq_some.mp isBinary
  rw [Option.guard_eq_some', Bool.and_eq_true] at guarded
  obtain ⟨isInteger, isScalar⟩ := guarded
  have scalar := lanes_eq_one_of_isScalar isScalar
  split at applies
  next value notConst isConst =>
    obtain ⟨range', isRange, equal⟩ := Option.bind_eq_some_iff.mp applies
    cases equal
    refine ⟨dtype, op, x, rhs, op, value, rfl, isInteger, scalar, isComparison_of_rangeTo? isRange, ?_,
      isRange, .inl ⟨rfl, rfl, isConst⟩⟩
    simp [comparedConst?, asBinary?, notConst, isConst]
  next value isConst notConst =>
    obtain ⟨flipped, flips, applies⟩ := Option.bind_eq_some_iff.mp applies
    obtain ⟨range', isRange, equal⟩ := Option.bind_eq_some_iff.mp applies
    cases equal
    have isComparison : op.isComparison = true := by cases op <;> first | rfl | cases flips
    refine ⟨dtype, op, lhs, x, flipped, value, rfl, isInteger, scalar, isComparison, ?_, isRange,
      .inr ⟨rfl, flips, isConst⟩⟩
    simp [comparedConst?, asBinary?, notConst, isConst, flips]
  next => cases applies

/-- The condition keeps its range, and the integer that it is about is a word. -/
structure ReadsAsRange (check : RangeCheck) (env : Environment) (cond : Expr) : Prop where
  kept : KeepsRange cond
  isWord : ∀ {x range number}, asRange? cond = some (x, range) →
    x.valueIn check env 0 = some number → Fits number

/-- Checked integers are words. -/
theorem KeepsRange.readsAsRange (kept : KeepsRange cond) (typed : cond.WellTyped)
    (inRange : env.InRange) : ReadsAsRange .checked env cond := by
  refine ⟨kept, fun {x range number} isRange isNumber => ?_⟩
  obtain ⟨dtype, op, lhs, rhs, flipped, value, rfl, isInteger, -, -, -, -, sides⟩ :=
    comparison_of_asRange? isRange
  rw [WellTyped] at typed
  obtain ⟨leftTyped, rightTyped, same, -, -⟩ := typed
  have word (isTyped : x.WellTyped) (isInteger : x.dtype.isInteger = true) : Fits number :=
    Bound.word_of_fits (DataType.isFloat_of_isInteger isInteger)
      (fits_of_reads_isInteger isTyped isInteger inRange (reads_of_valueAt isNumber))
  rcases sides with ⟨rfl, -⟩ | ⟨rfl, -⟩
  · exact word leftTyped isInteger
  · exact word rightTyped (same ▸ isInteger)

/-- The condition is a scalar, the range is proper, and the condition is true where the integer is in the
range and false elsewhere. -/
structure ToldByRange (check : RangeCheck) (env : Environment) (cond x : Expr) (range : Bound) :
    Prop where
  isType : cond.dtype = .bool
  proper : range.Proper
  tells : ∀ found, cond.evaluate check env = some found →
    ∃ number, x.valueIn check env 0 = some number ∧ found = .bool (range.contains number)

/-- A condition that is read as a range is told by it. -/
theorem ReadsAsRange.toldByRange (reads : ReadsAsRange check env cond) (typed : cond.WellTyped)
    (kinded : env.Kinded) (isRange : asRange? cond = some (x, range)) :
    ToldByRange check env cond x range := by
  have ofWord {number : Int} (isNumber : x.valueIn check env 0 = some number) : Fits number :=
    reads.isWord isRange isNumber
  obtain ⟨dtype, op, lhs, rhs, flipped, value, rfl, isInteger, scalar, isComparison, isCompared,
    isRangeTo, sides⟩ := comparison_of_asRange? isRange
  obtain ⟨proper, holds⟩ := exact_of_rangeTo? (reads.kept _ _ isCompared) isRangeTo
  have compares : Compares check env dtype op lhs rhs := ⟨typed, kinded, isComparison, isInteger⟩
  refine ⟨?_, proper, fun found evaluated => ?_⟩
  · rw [WellTyped] at typed
    rw [Expr.dtype, typed.2.2.2.1, binaryType, if_pos isComparison, scalar]
    rfl
  obtain ⟨truth, rfl, isTruth⟩ := compares.exists_truth scalar evaluated
  obtain ⟨left, isLeft, right, isRight, made⟩ := compares.parts.made isTruth
  have settled {number : Int} (isNumber : x.valueIn check env 0 = some number)
      (made : flipped.onLane number value = some (truth.toNat : Int)) :
      ∃ number, x.valueIn check env 0 = some number ∧
        Value.bool truth = .bool (range.contains number) := by
    have same := Option.some.inj (made.symm.trans (holds number (ofWord isNumber)))
    exact ⟨number, isNumber, congrArg Value.bool (truth_of_toNat_eq same)⟩
  rcases sides with ⟨rfl, rfl, isConst⟩ | ⟨rfl, flips, isConst⟩
  · obtain ⟨constType, rfl⟩ := asInt?_eq_some.mp isConst
    rw [valueIn_intConst isRight] at made
    exact settled isLeft made
  · obtain ⟨constType, rfl⟩ := asInt?_eq_some.mp isConst
    rw [valueIn_intConst isLeft] at made
    exact settled isRight ((BinaryOp.onLane_of_flip? flips).trans made)

/-- A condition on an integer of fewer than 63 bits keeps its range. -/
theorem keepsRange_of_narrow (typed : cond.WellTyped) (isRange : asRange? cond = some (x, range))
    (narrow : x.dtype.bits ≤ 62) : KeepsRange cond := by
  obtain ⟨dtype, op, lhs, rhs, flipped, value, rfl, isInteger, -, -, isCompared, -, sides⟩ :=
    comparison_of_asRange? isRange
  rw [WellTyped] at typed
  obtain ⟨firstTyped, secondTyped, same, -, -⟩ := typed
  have isSmall {const : Expr} (isConst : const.asInt? = some value) (constTyped : const.WellTyped)
      (isType : const.dtype = x.dtype) (isInteger : x.dtype.isInteger = true) :
      -twoPow 62 ≤ value ∧ value ≤ twoPow 62 := by
    obtain ⟨constType, rfl⟩ := asInt?_eq_some.mp isConst
    rw [WellTyped] at constTyped
    obtain rfl : constType = x.dtype := isType
    exact small_of_fits isInteger narrow constTyped.2.2.2
  intro op' value' isCompared'
  obtain ⟨rfl, rfl⟩ := Prod.mk.inj (Option.some.inj (isCompared.symm.trans isCompared'))
  refine keepsEnds_of_small flipped ?_
  rcases sides with ⟨rfl, -, isConst⟩ | ⟨rfl, -, isConst⟩
  · exact isSmall isConst secondTyped same.symm isInteger
  · exact isSmall isConst firstTyped same (same ▸ isInteger)

/-! ### Two conditions on one integer -/

variable {evidence : Evidence} {first second : Bound}

/-- Two conditions are true where an integer is in their ranges, and the value is made of both. -/
structure Restricts (check : RangeCheck) (env : Environment) (dtype : DataType) (op : BinaryOp)
    (a b : Expr)
    (first second : Bound) (number : Int) (found : Value) : Prop where
  isType : dtype = .bool
  firstProper : first.Proper
  secondProper : second.Proper
  isFirst : a.evaluate check env = some (.bool (first.contains number))
  isSecond : b.evaluate check env = some (.bool (second.contains number))
  made : Scalar.binary? check .bool op (.bool (first.contains number))
    (.bool (second.contains number)) = some found

section

variable (tellsFirst : ∀ {x range}, evidence.range a = some (x, range) → ToldByRange check env a x range)
  (tellsSecond : ∀ {x range}, evidence.range b = some (x, range) → ToldByRange check env b x range)

include tellsFirst tellsSecond

omit [check.Lawful] in
theorem restricts_of_asRanges? {op' : BinaryOp} (isLogical : op' = .and ∨ op' = .or)
    (typed : (binary dtype op a b).WellTyped)
    (areRanges : asRanges? evidence (binary dtype op a b) = some (op', first, second))
    (evaluated : (binary dtype op a b).evaluate check env = some found) :
    op' = op ∧ ∃ number, Restricts check env dtype op a b first second number found := by
  simp [asRanges?, asBinary?, Option.bind_eq_some_iff, Option.guard_eq_some'] at areRanges
  obtain ⟨x, isRange, isRange', rfl⟩ := areRanges
  obtain ⟨firstType, firstProper, tells⟩ := tellsFirst isRange
  obtain ⟨-, secondProper, tells'⟩ := tellsSecond isRange'
  rw [WellTyped] at typed
  obtain ⟨firstTyped, secondTyped, same, isType, -⟩ := typed
  obtain rfl : dtype = .bool := by
    rcases isLogical with rfl | rfl <;> exact isType.trans firstType
  obtain ⟨left, right, -, isLeft, isRight, -⟩ := evaluate_binary_eq_some.mp evaluated
  obtain ⟨number, isNumber, rfl⟩ := tells left isLeft
  obtain ⟨number', isNumber', rfl⟩ := tells' right isRight
  cases isNumber.symm.trans isNumber'
  have made : (binary .bool op a b).evaluate check env = Scalar.binary? check a.dtype.element op
      (.bool (first.contains number)) (.bool (second.contains number)) :=
    evaluate_binary_scalar rfl isLeft isRight (by rw [firstType]; rfl)
      (by rw [← same, firstType]; rfl)
  rw [firstType] at made
  exact ⟨rfl, number, rfl, firstProper, secondProper, isLeft, isRight, made.symm.trans evaluated⟩

omit [check.Lawful] in
theorem evaluate_contradiction? (typed : (binary dtype op a b).WellTyped)
    (applies : contradiction? evidence (binary dtype op a b) = some result)
    (evaluated : (binary dtype op a b).evaluate check env = some found) :
    result.evaluate check env = some found := by
  obtain ⟨⟨op', first, second⟩, areRanges, applies⟩ := Option.bind_eq_some_iff.mp applies
  have restricts (isLogical : op' = .and ∨ op' = .or) :=
    restricts_of_asRanges? tellsFirst tellsSecond isLogical typed areRanges evaluated
  dsimp only at applies
  split at applies
  · obtain ⟨rfl, number, restricts⟩ := restricts (.inl rfl)
    simp only [Option.bind_eq_bind, Option.bind_eq_some_iff, Option.guard_eq_some'] at applies
    obtain ⟨-, disjoint, equal⟩ := applies
    cases equal
    obtain ⟨rfl, -, -, -, -, made⟩ := restricts
    cases made
    cases isMember : first.contains number with
    | false => rfl
    | true =>
      rw [Bound.not_contains_of_areDisjoint disjoint isMember]
      rfl
  · obtain ⟨rfl, number, restricts⟩ := restricts (.inr rfl)
    simp only [Option.bind_eq_bind, Option.bind_eq_some_iff, Option.guard_eq_some'] at applies
    obtain ⟨-, cover, equal⟩ := applies
    cases equal
    obtain ⟨rfl, firstProper, secondProper, -, -, made⟩ := restricts
    cases made
    rcases Bound.contains_or_of_coverAll cover firstProper secondProper with isMember | isMember
    · rw [isMember]
      rfl
    · rw [isMember, Bool.or_true]
      rfl
  · cases applies

end

/-- The condition that two are merged to has the smaller one of the two ranges in a conjunction, and
the larger one in a disjunction. -/
theorem smaller_or_larger_of_mergeRanges?
    (applies : mergeRanges? evidence (binary dtype op a b) = some result) :
    ∃ op' first second, asRanges? evidence (binary dtype op a b) = some (op', first, second) ∧
      (op' = .and ∧ (first.isSubsetOf second = true ∧ result = a ∨
          second.isSubsetOf first = true ∧ result = b) ∨
        op' = .or ∧ (first.isSubsetOf second = true ∧ result = b ∨
          second.isSubsetOf first = true ∧ result = a)) := by
  unfold mergeRanges? at applies
  obtain ⟨⟨op₁, a₁, b₁⟩, isBinary, picks⟩ := Option.bind_eq_some_iff.mp applies
  obtain ⟨⟨op', first, second⟩, areRanges, made⟩ := Option.bind_eq_some_iff.mp picks
  cases isBinary
  refine ⟨op', first, second, areRanges, ?_⟩
  dsimp only at made
  cases op' with
  | and =>
    refine .inl ⟨rfl, ?_⟩
    split at made
    next within =>
      cases made
      exact .inl ⟨within, rfl⟩
    next =>
      split at made
      next around =>
        cases made
        exact .inr ⟨around, rfl⟩
      next => cases made
  | or =>
    refine .inr ⟨rfl, ?_⟩
    split at made
    next within =>
      cases made
      split_ifs with same
      · exact .inr ⟨same ▸ within, rfl⟩
      · exact .inl ⟨within, rfl⟩
    next =>
      split at made
      next around =>
        cases made
        exact .inr ⟨around, ite_self a⟩
      next => cases made
  | _ => split_ifs at made <;> cases made

omit [check.Lawful] in
theorem evaluate_mergeRanges?
    (tellsFirst : ∀ {x range}, evidence.range a = some (x, range) → ToldByRange check env a x range)
    (tellsSecond : ∀ {x range}, evidence.range b = some (x, range) → ToldByRange check env b x range)
    (typed : (binary dtype op a b).WellTyped)
    (applies : mergeRanges? evidence (binary dtype op a b) = some result)
    (evaluated : (binary dtype op a b).evaluate check env = some found) :
    result.evaluate check env = some found := by
  obtain ⟨op', first, second, areRanges, chosen⟩ := smaller_or_larger_of_mergeRanges? applies
  have restricts (isLogical : op' = .and ∨ op' = .or) :=
    restricts_of_asRanges? tellsFirst tellsSecond isLogical typed areRanges evaluated
  rcases chosen with ⟨rfl, chosen⟩ | ⟨rfl, chosen⟩
  · obtain ⟨rfl, number, -, -, -, isFirst, isSecond, made⟩ := restricts (.inl rfl)
    rcases chosen with ⟨subset, rfl⟩ | ⟨subset, rfl⟩
    · rw [Bool.eq_self_and.mpr (Bound.contains_of_isSubsetOf subset)] at isFirst
      exact isFirst.trans made
    · rw [Bool.eq_and_self.mpr (Bound.contains_of_isSubsetOf subset)] at isSecond
      exact isSecond.trans made
  · obtain ⟨rfl, number, -, -, -, isFirst, isSecond, made⟩ := restricts (.inr rfl)
    rcases chosen with ⟨subset, rfl⟩ | ⟨subset, rfl⟩
    · rw [Bool.eq_or_self.mpr (Bound.contains_of_isSubsetOf subset)] at isSecond
      exact isSecond.trans made
    · rw [Bool.eq_self_or.mpr (Bound.contains_of_isSubsetOf subset)] at isFirst
      exact isFirst.trans made

omit [check.Lawful] in
/-- Two conditions that are told by their ranges are merged to one with the value of the node. -/
theorem evaluate_of_merges (typed : (binary dtype op a b).WellTyped)
    (tells : ∀ cond ∈ [a, b], ∀ x range, cond.WellTyped → evidence.range cond = some (x, range) →
      ToldByRange check env cond x range)
    (applies : contradiction? evidence (binary dtype op a b) = some result ∨
      mergeRanges? evidence (binary dtype op a b) = some result)
    (evaluated : (binary dtype op a b).evaluate check env = some found) :
    result.evaluate check env = some found := by
  have node := typed
  rw [WellTyped] at node
  have first {x : Expr} {range : Bound} (isRange : evidence.range a = some (x, range)) :=
    tells a List.mem_cons_self x range node.1 isRange
  have second {x : Expr} {range : Bound} (isRange : evidence.range b = some (x, range)) :=
    tells b (List.mem_cons_of_mem _ List.mem_cons_self) x range node.2.1 isRange
  rcases applies with applies | applies
  · exact evaluate_contradiction? first second typed applies evaluated
  · exact evaluate_mergeRanges? first second typed applies evaluated

/-- Conditions on one integer that keep their ranges are merged exactly: what becomes of a conjunction
or a disjunction of them has its value. -/
theorem mergedRanges_exact (reads : evidence.range = asRange?)
    (typed : (binary dtype op a b).WellTyped) (envTyped : env.Typed) (keepsFirst : KeepsRange a)
    (keepsSecond : KeepsRange b)
    (applies : contradiction? evidence (binary dtype op a b) = some result ∨
      mergeRanges? evidence (binary dtype op a b) = some result)
    (evaluated : (binary dtype op a b).eval env = some found) : result.eval env = some found := by
  have keeps : ∀ cond ∈ [a, b], KeepsRange cond := by simp [keepsFirst, keepsSecond]
  refine evaluate_of_merges typed (fun cond isCond x range condTyped isRange => ?_) applies evaluated
  exact ((keeps cond isCond).readsAsRange condTyped envTyped.inRange).toldByRange condTyped
    envTyped.kinded (reads ▸ isRange)

/-- The smaller one of two ranges is all that is left of a conjunction: `x < 3 && x < 5` is `x < 3`. -/
theorem mergedRanges_exact_smaller :
    let x : Variable := ⟨"x", .int64, false⟩
    let below (value : Int) := binary .bool .lt x.expr (intConst .int64 value)
    let env := Environment.empty.set x (.int 4)
    mergeRanges? ({} : Knowledge).evidence (binary .bool .and (below 3) (below 5)) = some (below 3) ∧
      (below 3).eval env = some (.bool false) := by
  intro x below env
  have merges : mergeRanges? ({} : Knowledge).evidence (binary .bool .and (below 3) (below 5)) =
      some (below 3) := by decide +kernel
  have keeps (value : Int) (inside : Inside (value - 1)) : KeepsRange (below value) := by
    intro op value' isCompared
    cases isCompared
    exact inside
  exact ⟨merges, mergedRanges_exact rfl (by decide)
    (Environment.typed_empty.set_int rfl (by decide) (by decide)) (keeps 3 (by decide))
    (keeps 5 (by decide)) (.inr merges) rfl⟩

/-- Conditions on an integer of fewer than 63 bits are merged exactly, whatever their constants are. -/
theorem mergedRanges_exact_of_narrow (reads : evidence.range = asRange?)
    (typed : (binary dtype op a b).WellTyped) (envTyped : env.Typed)
    (narrow : ∀ cond ∈ [a, b], ∀ x range, asRange? cond = some (x, range) → x.dtype.bits ≤ 62)
    (applies : contradiction? evidence (binary dtype op a b) = some result ∨
      mergeRanges? evidence (binary dtype op a b) = some result)
    (evaluated : (binary dtype op a b).eval env = some found) : result.eval env = some found := by
  refine evaluate_of_merges typed (fun cond isCond x range condTyped isRange => ?_) applies evaluated
  rw [reads] at isRange
  have keeps := keepsRange_of_narrow condTyped isRange (narrow cond isCond x range isRange)
  exact (keeps.readsAsRange condTyped envTyped.inRange).toldByRange condTyped envTyped.kinded isRange

/-- Conditions at the ends of the words are not merged exactly. The range of `x == 2^63 - 1` reads as if
it had no ends, so that it is taken to meet that of `x < 5`, and the disjunction is made true. -/
theorem not_mergedRanges_exact :
    let x : Variable := ⟨"x", .int64, false⟩
    let below := binary .bool .lt x.expr (intConst .int64 5)
    let atEnd := binary .bool .eq x.expr (intConst .int64 greatest)
    let expr := binary .bool .or below atEnd
    let env := Environment.empty.set x (.int 5)
    ¬∀ (evidence : Evidence) (result : Expr) (found : Value), evidence.range = asRange? →
      expr.WellTyped → env.Typed →
        contradiction? evidence expr = some result ∨ mergeRanges? evidence expr = some result →
          expr.eval env = some found → result.eval env = some found := by
  intro x below atEnd expr env exact
  have isTrue : contradiction? ({} : Knowledge).evidence expr = some (boolConst .bool true) := by
    decide +kernel
  have same := exact _ _ (.bool false) rfl (by decide)
    (Environment.typed_empty.set_int rfl (by decide) (by decide)) (.inl isTrue) rfl
  cases same

end Reduction.Conditions

end IndexAlgebra
