/-
This file proves that every operation on bounds is sound: if the operands are in their bounds and
the result is an integer strictly between the ends that stand for the infinities, the result is in
the bound of the operation.
-/
import IndexAlgebra.Evaluation
import IndexAlgebra.Knowledge.Bounds
import IndexAlgebra.Proofs.Evaluation
import IndexAlgebra.Proofs.Limit
import Mathlib.Data.List.Induction

namespace IndexAlgebra.Bound

open Limit Word

variable {left right : Bound} {first second value : Int}

/-! ### Types and points -/

theorem contains_ofInts {least greatest : Int} (inside : Inside value) (low : least ≤ value)
    (high : value ≤ greatest) : (ofInts least greatest).contains value = true := by
  rw [contains_iff, ← ofInt_of_inside inside]
  exact ⟨ofInt_mono low, ofInt_mono high⟩

theorem contains_point (inside : Inside value) : (point value).contains value = true :=
  contains_ofInts inside (Int.le_refl value) (Int.le_refl value)

theorem contains_truth (truth : value = 0 ∨ value = 1) : Bound.truth.contains value = true := by
  rcases truth with rfl | rfl <;> decide

theorem contains_ofType {dtype : DataType} (inside : Inside value)
    (fits : dtype.fits value = true) : (ofType dtype).contains value = true := by
  unfold ofType
  split
  next least greatest isLeast isGreatest =>
    unfold DataType.fits at fits
    rw [isLeast, isGreatest] at fits
    have between : least ≤ value ∧ value ≤ greatest := of_decide_eq_true fits
    exact contains_ofInts inside between.1 between.2
  next => exact contains_everything value

theorem contains_of_fits {bound : Bound} {dtype : DataType} (fits : bound.fits dtype = true)
    (member : bound.contains value = true) : (ofType dtype).contains value = true :=
  contains_of_isSubsetOf fits member

/-! ### Sums -/

theorem contains_add (inside : Inside (first + second)) (isFirst : left.contains first = true)
    (isSecond : right.contains second = true) :
    (left.add right).contains (first + second) = true := by
  rw [contains_iff] at *
  rw [← ofInt_of_inside inside]
  exact ⟨add?_le isFirst.1 isSecond.1, le_add? isFirst.2 isSecond.2⟩

theorem contains_neg (member : left.contains first = true) :
    left.neg.contains (-first) = true := by
  rw [contains_iff] at *
  exact ⟨neg_le_neg member.2, neg_le_neg member.1⟩

theorem contains_sub (inside : Inside (first - second)) (isFirst : left.contains first = true)
    (isSecond : right.contains second = true) :
    (left.sub right).contains (first - second) = true :=
  contains_add inside isFirst (contains_neg isSecond)

theorem contains_minimum (isFirst : left.contains first = true)
    (isSecond : right.contains second = true) :
    (left.minimum right).contains (min first second) = true := by
  rw [contains_iff] at *
  rcases Int.le_total first second with ordered | ordered
  · rw [Int.min_eq_left ordered]
    exact ⟨le_trans (min_le_left _ _) isFirst.1,
      le_min_iff.mpr ⟨isFirst.2, le_trans (finite_le_finite.mpr ordered) isSecond.2⟩⟩
  · rw [Int.min_eq_right ordered]
    exact ⟨le_trans (min_le_right _ _) isSecond.1,
      le_min_iff.mpr ⟨le_trans (finite_le_finite.mpr ordered) isFirst.2, isSecond.2⟩⟩

theorem contains_maximum (isFirst : left.contains first = true)
    (isSecond : right.contains second = true) :
    (left.maximum right).contains (max first second) = true := by
  rw [contains_iff] at *
  rcases Int.le_total first second with ordered | ordered
  · rw [Int.max_eq_right ordered]
    exact ⟨max_le_iff.mpr ⟨le_trans isFirst.1 (finite_le_finite.mpr ordered), isSecond.1⟩,
      le_trans isSecond.2 (le_max_right _ _)⟩
  · rw [Int.max_eq_left ordered]
    exact ⟨max_le_iff.mpr ⟨isFirst.1, le_trans isSecond.1 (finite_le_finite.mpr ordered)⟩,
      le_trans isFirst.2 (le_max_left _ _)⟩

/-! ### Products and quotients -/

/-- The bound around some ends is around each of them. -/
theorem around_spec (first : Limit) (rest : List Limit) :
    ∀ limit ∈ first :: rest, (around first rest).lower ≤ limit ∧ limit ≤ (around first rest).upper := by
  unfold around
  induction rest using List.reverseRecOn with
  | nil =>
    intro limit member
    rw [List.mem_singleton.mp member]
    exact ⟨Limit.le_refl first, Limit.le_refl first⟩
  | append_singleton rest last inductionHypothesis =>
    intro limit member
    simp only [List.foldl_append, List.foldl_cons, List.foldl_nil]
    rw [← List.cons_append, List.mem_append, List.mem_singleton] at member
    rcases member with inRest | isLast
    · have between := inductionHypothesis limit inRest
      exact ⟨Limit.le_trans (min_le_left _ _) between.1,
        Limit.le_trans between.2 (le_max_left _ _)⟩
    · rw [isLast]
      exact ⟨min_le_right _ _, le_max_right _ _⟩

/-- What lies between two ends of a bound lies in the bound. -/
theorem within_of_between {bound : Bound} {first middle last : Limit}
    (between : Between first middle last) (isFirst : bound.lower ≤ first ∧ first ≤ bound.upper)
    (isLast : bound.lower ≤ last ∧ last ≤ bound.upper) :
    bound.lower ≤ middle ∧ middle ≤ bound.upper := by
  rcases between with ⟨low, high⟩ | ⟨low, high⟩
  · exact ⟨Limit.le_trans isFirst.1 low, Limit.le_trans high isLast.2⟩
  · exact ⟨Limit.le_trans isLast.1 low, Limit.le_trans high isFirst.2⟩

/-- An operation that is monotone or antitone in each operand takes its least and its greatest
values at the corners. -/
theorem within_corners (operation : Limit → Limit → Limit) (middle middle' : Limit)
    (inFirst : Between (operation left.lower middle') (operation middle middle')
      (operation left.upper middle'))
    (atLower : Between (operation left.lower right.lower) (operation left.lower middle')
      (operation left.lower right.upper))
    (atUpper : Between (operation left.upper right.lower) (operation left.upper middle')
      (operation left.upper right.upper)) :
    (corners operation left right).lower ≤ operation middle middle' ∧
      operation middle middle' ≤ (corners operation left right).upper := by
  have corner := around_spec (operation left.lower right.lower)
    [operation left.lower right.upper, operation left.upper right.lower,
      operation left.upper right.upper]
  refine within_of_between inFirst ?_ ?_
  · exact within_of_between atLower (corner _ (by simp)) (corner _ (by simp))
  · exact within_of_between atUpper (corner _ (by simp)) (corner _ (by simp))

/-- The bound of a product is around it even where the product is beyond every finite end. -/
theorem within_mul (isFirst : left.lower ≤ ofInt first ∧ ofInt first ≤ left.upper)
    (isSecond : right.lower ≤ ofInt second ∧ ofInt second ≤ right.upper) :
    (left.mul right).lower ≤ (ofInt first).mul (ofInt second) ∧
      (ofInt first).mul (ofInt second) ≤ (left.mul right).upper :=
  within_corners Limit.mul _ _ (between_mul_right _ isFirst.1 isFirst.2)
    (between_mul_left _ isSecond.1 isSecond.2) (between_mul_left _ isSecond.1 isSecond.2)

theorem contains_mul (inside : Inside (first * second)) (isFirst : left.contains first = true)
    (isSecond : right.contains second = true) :
    (left.mul right).contains (first * second) = true := by
  rw [contains_iff] at *
  rw [← ofInt_of_inside inside]
  exact within_corners Limit.mul (finite first) (finite second)
    (between_mul_right _ isFirst.1 isFirst.2)
    (between_mul_left _ isSecond.1 isSecond.2) (between_mul_left _ isSecond.1 isSecond.2)

theorem isDivisor_iff {bound : Bound} :
    bound.isDivisor = true ↔ ¬bound.lower ≤ finite 0 ∨ ¬finite 0 ≤ bound.upper := by
  unfold isDivisor isPositive isNegative
  rw [Bool.or_eq_true, decide_eq_true_iff, decide_eq_true_iff]
  rfl

theorem contains_div (floor : Bool) {quotient : Bound}
    (divides : left.div? floor right = some quotient)
    (inside : Inside (divideInts floor first second)) (isFirst : left.contains first = true)
    (isSecond : right.contains second = true) :
    quotient.contains (divideInts floor first second) = true := by
  rw [div?, Option.ite_none_right_eq_some, Option.some.injEq] at divides
  obtain ⟨divisor, rfl⟩ := divides
  have oneSign := isDivisor_iff.mp divisor
  rw [contains_iff] at *
  have sameSign : ¬finite second ≤ finite 0 ∨ ¬finite 0 ≤ finite second := by
    rcases oneSign with positive | negative
    · exact .inl fun small => positive (Limit.le_trans isSecond.1 small)
    · exact .inr fun large => negative (Limit.le_trans large isSecond.2)
  rw [← ofInt_of_inside inside]
  exact within_corners (Limit.div floor) (finite first) (finite second)
    (between_div_dividend floor sameSign isFirst.1 isFirst.2)
    (between_div_divisor floor _ oneSign isSecond.1 isSecond.2)
    (between_div_divisor floor _ oneSign isSecond.1 isSecond.2)

/-! ### Ramps -/

theorem finite_mul_ofInt {stride index : Int} (inside : Inside stride) (nonneg : 0 ≤ index) :
    (finite stride).mul (ofInt index) = ofInt (stride * index) := by
  by_cases large : greatest ≤ index
  · have beyond : ofInt index = posInf := if_pos large
    have positive : 0 < greatest := by decide
    rw [beyond, finite_mul_posInf, infinite_sign]
    rcases lt_trichotomy stride 0 with negative | rfl | above
    · have small : stride * index ≤ -greatest := by nlinarith
      rw [if_neg negative.ne, if_pos negative, ofInt, if_neg (by omega), if_pos small]
    · rw [if_pos rfl, Int.zero_mul]
      decide
    · have big : greatest ≤ stride * index := by nlinarith
      rw [if_neg above.ne', if_neg (by omega), ofInt, if_pos big]
  · have positive : 0 < greatest := by decide
    rw [ofInt_of_inside ⟨by omega, by omega⟩]
    rfl

theorem ofInt_le_self (small : value < greatest) : ofInt value ≤ finite value := by
  unfold ofInt
  rw [if_neg (by omega)]
  split
  · exact negInf_le _
  · exact Limit.le_refl _

theorem self_le_ofInt (large : -greatest < value) : finite value ≤ ofInt value := by
  unfold ofInt
  split
  · exact le_posInf _
  · rw [if_neg (by omega)]
    exact Limit.le_refl _

/-- The lanes of a ramp are in its bound, even if a multiple of the stride is not a word. -/
theorem contains_ramp {count index : Nat} (insideSecond : Inside second)
    (inside : Inside (first + index * second)) (small : index < count)
    (isFirst : left.contains first = true) (isSecond : right.contains second = true) :
    (left.add (right.mul (ofInts 0 (count - 1)))).contains (first + index * second) = true := by
  have nonneg : (0 : Int) ≤ index := Int.natCast_nonneg index
  have insideZero : Inside 0 := by decide
  have isZero : (ofInts 0 (count - 1)).lower ≤ ofInt 0 ∧ ofInt 0 ≤ (ofInts 0 (count - 1)).upper :=
    ⟨ofInt_mono (Int.le_refl 0), ofInt_mono (by omega)⟩
  have isIndex :
      (ofInts 0 (count - 1)).lower ≤ ofInt index ∧ ofInt index ≤ (ofInts 0 (count - 1)).upper :=
    ⟨ofInt_mono nonneg, ofInt_mono (by omega)⟩
  rw [contains_iff] at *
  rw [← ofInt_of_inside insideSecond] at isSecond
  have atZero := within_mul isSecond isZero
  have atIndex := within_mul isSecond isIndex
  rw [ofInt_of_inside insideSecond, finite_mul_ofInt insideSecond (Int.le_refl 0),
    Int.mul_zero, ofInt_of_inside insideZero] at atZero
  rw [ofInt_of_inside insideSecond, finite_mul_ofInt insideSecond nonneg] at atIndex
  have commuted : (index : Int) * second = second * index := Int.mul_comm _ _
  rw [commuted] at inside ⊢
  -- Where the product is beyond every finite end, zero is in its bound on the other side.
  obtain ⟨least, notAbove, isLeast⟩ : ∃ least ≤ second * index,
      (right.mul (ofInts 0 (count - 1))).lower ≤ finite least := by
    rcases lt_or_ge (second * index) 0 with negative | positive
    · exact ⟨_, Int.le_refl _, Limit.le_trans atIndex.1 (ofInt_le_self (by unfold greatest; omega))⟩
    · exact ⟨0, positive, atZero.1⟩
  obtain ⟨most, notBelow, isMost⟩ : ∃ most ≥ second * index,
      finite most ≤ (right.mul (ofInts 0 (count - 1))).upper := by
    rcases lt_or_ge 0 (second * index) with positive | negative
    · exact ⟨_, Int.le_refl _, Limit.le_trans (self_le_ofInt (by unfold greatest; omega)) atIndex.2⟩
    · exact ⟨0, negative, atZero.2⟩
  rw [← ofInt_of_inside inside]
  exact ⟨Limit.le_trans (add?_le isFirst.1 isLeast) (ofInt_mono (by omega)),
    Limit.le_trans (ofInt_mono (by omega)) (le_add? isFirst.2 isMost)⟩

/-! ### Remainders -/

/-- A remainder has the sign of the dividend, and is smaller in magnitude than the divisor and no
greater than the dividend. -/
theorem tmod_spec (dividend : Int) {divisor : Int} (nonzero : divisor ≠ 0) :
    (0 ≤ dividend → 0 ≤ dividend.tmod divisor) ∧ (dividend ≤ 0 → dividend.tmod divisor ≤ 0) ∧
      (dividend.tmod divisor).natAbs < divisor.natAbs ∧
      (dividend.tmod divisor).natAbs ≤ dividend.natAbs := by
  refine ⟨Int.tmod_nonneg divisor, fun nonpos => ?_, ?_, ?_⟩
  · have opposite := Int.tmod_nonneg divisor (by omega : 0 ≤ -dividend)
    rw [Int.neg_tmod] at opposite
    omega
  · rw [Int.natAbs_tmod]
    exact Nat.mod_lt _ (by omega)
  · rw [Int.natAbs_tmod]
    exact Nat.mod_le _ _

/-- The ends are right about the sign of the value, and the end on its side of zero is right about
its magnitude. -/
structure Signed (bound : Bound) (value : Int) : Prop where
  nonneg : finite 0 ≤ bound.lower → 0 ≤ value
  nonpos : bound.upper ≤ finite 0 → value ≤ 0
  lower_le : value ≤ 0 → bound.lower ≤ finite value
  le_upper : 0 ≤ value → finite value ≤ bound.upper

theorem Signed.of_contains {bound : Bound} (member : bound.contains value = true) :
    bound.Signed value := by
  obtain ⟨low, high⟩ := contains_iff.mp member
  exact ⟨fun nonneg => finite_le_finite.mp (Limit.le_trans nonneg low),
    fun nonpos => finite_le_finite.mp (Limit.le_trans high nonpos), fun _ => low, fun _ => high⟩

section

variable (isSecond : right.Signed second)
include isSecond

theorem Signed.pos (positive : ¬right.lower ≤ finite 0) : 0 < second := by
  by_contra nonpos
  exact positive (Limit.le_trans (isSecond.lower_le (by omega)) (finite_le_finite.mpr (by omega)))

theorem Signed.neg (negative : ¬finite 0 ≤ right.upper) : second < 0 := by
  by_contra nonneg
  exact negative (Limit.le_trans (finite_le_finite.mpr (by omega)) (isSecond.le_upper (by omega)))

/-- The greatest magnitude of a divisor is at least that of one of its values. -/
theorem Signed.natAbs_le_max : finite (second.natAbs : Int) ≤ max right.lower.neg right.upper := by
  rcases Int.le_total 0 second with nonneg | nonpos
  · rw [Int.natAbs_of_nonneg nonneg]
    exact Limit.le_trans (isSecond.le_upper nonneg) (le_max_right _ _)
  · rw [Int.ofNat_natAbs_of_nonpos nonpos]
    exact Limit.le_trans (neg_le_neg (isSecond.lower_le nonpos)) (le_max_left _ _)

end

theorem contains_truncMod {remainder : Bound} (divides : left.truncMod? right = some remainder)
    (isFirst : left.Signed first) (isSecond : right.Signed second) :
    remainder.contains (first.tmod second) = true := by
  rw [truncMod?, Option.ite_none_right_eq_some, Option.some.injEq] at divides
  obtain ⟨divisor, rfl⟩ := divides
  have nonzero : second ≠ 0 :=
    (isDivisor_iff.mp divisor).elim (fun positive => (isSecond.pos positive).ne')
      fun negative => (isSecond.neg negative).ne
  obtain ⟨nonneg, nonpos, small, notGreater⟩ := tmod_spec first nonzero
  have cap := Limit.le_trans (self_le_ofInt (by unfold greatest; omega))
    (le_add? isSecond.natAbs_le_max (Limit.le_refl (finite (-1))))
  have lowCap := neg_le_neg cap
  rw [contains_iff]
  constructor
  · show ite _ _ _ ≤ _
    split
    next isNonNegative =>
      exact finite_le_finite.mpr (nonneg (isFirst.nonneg (of_decide_eq_true isNonNegative)))
    next mayBeNegative =>
      refine max_le_iff.mpr ⟨?_, Limit.le_trans lowCap (finite_le_finite.mpr (by omega))⟩
      rcases Int.le_total 0 first with above | below
      · have low : left.lower ≤ finite 0 :=
          (Limit.le_total _ _).resolve_right fun large => mayBeNegative (decide_eq_true large)
        exact Limit.le_trans low (finite_le_finite.mpr (nonneg above))
      · have signed := nonpos below
        exact Limit.le_trans (isFirst.lower_le below) (finite_le_finite.mpr (by omega))
  · show _ ≤ ite _ _ _
    split
    next isNonPositive =>
      exact finite_le_finite.mpr (nonpos (isFirst.nonpos (of_decide_eq_true isNonPositive)))
    next mayBePositive =>
      refine le_min_iff.mpr ⟨?_, Limit.le_trans (finite_le_finite.mpr (by omega)) cap⟩
      rcases Int.le_total 0 first with above | below
      · have signed := nonneg above
        exact Limit.le_trans (finite_le_finite.mpr (by omega)) (isFirst.le_upper above)
      · have high : finite 0 ≤ left.upper :=
          (Limit.le_total _ _).resolve_right fun small => mayBePositive (decide_eq_true small)
        exact Limit.le_trans (finite_le_finite.mpr (nonpos below)) high

/-- A remainder of the quotient rounded down, by a divisor above zero, is smaller than the divisor
and no greater than a dividend that is not negative. -/
theorem fmod_spec (dividend : Int) {divisor : Int} (positive : 0 < divisor) :
    0 ≤ dividend.fmod divisor ∧ dividend.fmod divisor < divisor ∧
      (0 ≤ dividend → dividend.fmod divisor ≤ dividend) := by
  refine ⟨Int.fmod_nonneg_of_pos dividend positive, Int.fmod_lt_of_pos dividend positive, ?_⟩
  intro nonneg
  have notGreater := (tmod_spec dividend (by omega : divisor ≠ 0)).2.2.2
  rw [← Int.fmod_eq_tmod_of_nonneg nonneg positive.le] at notGreater
  omega

theorem contains_floorMod {remainder : Bound} (divides : left.floorMod? right = some remainder)
    (isFirst : left.Signed first) (isSecond : right.Signed second) :
    remainder.contains (first.fmod second) = true := by
  unfold floorMod? at divides
  rw [contains_iff]
  split at divides
  next isPositive =>
    cases divides
    have positive := isSecond.pos (of_decide_eq_true isPositive)
    obtain ⟨nonneg, smaller, notGreater⟩ := fmod_spec first positive
    have cap := Limit.le_trans (self_le_ofInt (by unfold greatest; omega))
      (le_add? (isSecond.le_upper positive.le) (Limit.le_refl (finite (-1))))
    have belowCap : finite (first.fmod second) ≤ (right.upper.add? (finite (-1))).getD posInf :=
      Limit.le_trans (finite_le_finite.mpr (by omega)) cap
    refine ⟨finite_le_finite.mpr nonneg, ?_⟩
    show _ ≤ ite _ _ _
    split
    next isNonNegative =>
      have above := isFirst.nonneg (of_decide_eq_true isNonNegative)
      exact Limit.le_min_iff.mpr
        ⟨Limit.le_trans (finite_le_finite.mpr (notGreater above)) (isFirst.le_upper above),
          belowCap⟩
    next => exact belowCap
  next =>
    rw [Option.ite_none_right_eq_some, Option.some.injEq] at divides
    obtain ⟨isNegative, rfl⟩ := divides
    have negative := isSecond.neg (of_decide_eq_true isNegative)
    obtain ⟨nonneg, smaller, notGreater⟩ := fmod_spec (-first) (by omega : 0 < -second)
    rw [Int.neg_fmod_neg] at nonneg smaller notGreater
    have cap := Limit.le_trans (add?_le (isSecond.lower_le negative.le) (Limit.le_refl (finite 1)))
      (ofInt_le_self (by unfold greatest; omega))
    have aboveCap : (right.lower.add? (finite 1)).getD negInf ≤ finite (first.fmod second) :=
      Limit.le_trans cap (finite_le_finite.mpr (by omega))
    refine ⟨?_, finite_le_finite.mpr (by omega)⟩
    show ite _ _ _ ≤ _
    split
    next isNonPositive =>
      have below := isFirst.nonpos (of_decide_eq_true isNonPositive)
      have bounded := notGreater (by omega)
      exact Limit.max_le_iff.mpr
        ⟨Limit.le_trans (isFirst.lower_le below) (finite_le_finite.mpr (by omega)), aboveCap⟩
    next => exact aboveCap

/-! ### Bits -/

theorem shiftAmount_finite {amount : Int} (nonneg : 0 ≤ amount) :
    shiftAmount (finite amount) = min amount.toNat 63 := by
  show (min amount 63 % 64).toNat = _
  omega

theorem twoPow_mono {small large : Nat} (ordered : small ≤ large) : twoPow small ≤ twoPow large :=
  Nat.pow_le_pow_right (by decide) ordered

/-- The quotient of a word by a power of two beyond every word. -/
theorem fdiv_twoPow_of_large {amount : Nat} (word : Fits first) (large : 63 ≤ amount) :
    first.fdiv (twoPow amount) = if first < 0 then -1 else 0 := by
  have power : twoPow 63 ≤ twoPow amount := twoPow_mono large
  have value : twoPow 63 = 9223372036854775808 := by decide
  unfold Fits least greatest at word
  rw [Int.fdiv_eq_ediv_of_nonneg _ (by omega)]
  split
  next negative => exact Int.ediv_eq_neg_one_of_neg_of_le negative (by omega)
  next nonneg => exact Int.ediv_eq_zero_of_lt (by omega) (by omega)

/-- Shifting by more bits than a word has is shifting by all of them. -/
theorem fdiv_twoPow_min (word : Fits first) (amount : Nat) :
    first.fdiv (twoPow (min amount 63)) = first.fdiv (twoPow amount) := by
  rcases Nat.le_total amount 63 with small | large
  · rw [Nat.min_eq_left small]
  · rw [Nat.min_eq_right large, fdiv_twoPow_of_large word (Nat.le_refl 63),
      fdiv_twoPow_of_large word large]

theorem shiftAmount_mono {low high : Limit} (nonneg : finite 0 ≤ low) (ordered : low ≤ high) :
    shiftAmount low ≤ shiftAmount high := by
  match low, high with
  | posInf, posInf => exact Nat.le_refl _
  | finite low, posInf =>
    rw [shiftAmount_finite (finite_le_finite.mp nonneg)]
    exact Nat.min_le_right _ _
  | finite low, finite high =>
    have lowNonneg := finite_le_finite.mp nonneg
    have small := finite_le_finite.mp ordered
    rw [shiftAmount_finite lowNonneg, shiftAmount_finite (by omega)]
    omega

theorem between_shiftEnd_value {low middle high : Limit} (amount : Limit) (isLow : low ≤ middle)
    (isHigh : middle ≤ high) :
    Between (shiftEnd low amount) (shiftEnd middle amount) (shiftEnd high amount) := by
  have mono : ∀ {low high : Limit}, low ≤ high → shiftEnd low amount ≤ shiftEnd high amount := by
    intro low high ordered
    have positive := twoPow_pos (shiftAmount amount)
    cases low with
    | negInf => exact negInf_le _
    | posInf =>
      rw [Limit.le_antisymm ordered (le_posInf high)]
      exact Limit.le_refl _
    | finite low =>
      cases high with
      | negInf => exact absurd ordered (not_finite_le_negInf low)
      | posInf => exact le_posInf _
      | finite high =>
        exact finite_le_finite.mpr
          (divideInts_mono true (by omega) (finite_le_finite.mp ordered))
  exact .inl ⟨mono isLow, mono isHigh⟩

theorem between_shiftEnd_amount (value : Limit) {low middle high : Limit}
    (nonneg : finite 0 ≤ low) (isLow : low ≤ middle) (isHigh : middle ≤ high) :
    Between (shiftEnd value low) (shiftEnd value middle) (shiftEnd value high) := by
  have first := twoPow_mono (shiftAmount_mono nonneg isLow)
  have second := twoPow_mono (shiftAmount_mono (Limit.le_trans nonneg isLow) isHigh)
  have positive := twoPow_pos (shiftAmount low)
  cases value with
  | negInf | posInf => exact .of_eq rfl rfl
  | finite value =>
    rcases Int.le_total 0 value with above | below
    · exact .inr ⟨finite_le_finite.mpr (divideInts_antitone true above (by omega) (by omega)),
        finite_le_finite.mpr (divideInts_antitone true above (by omega) (by omega))⟩
    · exact .inl ⟨finite_le_finite.mpr (divideInts_monotone true below (by omega) (by omega)),
        finite_le_finite.mpr (divideInts_monotone true below (by omega) (by omega))⟩

theorem contains_shiftRight {shifted : Bound} (shifts : left.shiftRight? right = some shifted)
    (inside : Inside first) (isFirst : left.contains first = true)
    (isSecond : right.contains second = true) :
    shifted.contains (first.fdiv (twoPow second.toNat)) = true := by
  rw [shiftRight?, Option.ite_none_right_eq_some, Option.some.injEq] at shifts
  obtain ⟨isNonNegative, rfl⟩ := shifts
  have nonneg : finite 0 ≤ right.lower := of_decide_eq_true isNonNegative
  rw [contains_iff] at *
  have above := finite_le_finite.mp (Limit.le_trans nonneg isSecond.1)
  rw [← fdiv_twoPow_min inside.fits, ← shiftAmount_finite above]
  exact within_corners shiftEnd (finite first) (finite second)
    (between_shiftEnd_value _ isFirst.1 isFirst.2)
    (between_shiftEnd_amount _ nonneg isSecond.1 isSecond.2)
    (between_shiftEnd_amount _ nonneg isSecond.1 isSecond.2)

theorem inside_twoPow {amount : Nat} (small : amount ≤ 62) : Inside (twoPow amount) := by
  have positive := twoPow_pos amount
  have power : twoPow amount ≤ twoPow 62 := twoPow_mono small
  have value : twoPow 62 = 4611686018427387904 := by decide
  unfold Inside greatest
  omega

theorem eq_finite_of_finite? {limit : Limit} (isFinite : limit.finite? = some value) :
    limit = finite value := by
  cases limit <;> simp_all [finite?]

theorem wrap_twoPow {amount : Int} (nonneg : 0 ≤ amount) (small : amount ≤ 62) :
    Word.wrap (twoPow (amount.emod 64).toNat) = twoPow amount.toNat := by
  have same : (amount.emod 64).toNat = amount.toNat := by
    show (amount % 64).toNat = _
    omega
  have inside := inside_twoPow (by omega : amount.toNat ≤ 62)
  rw [same]
  unfold Inside greatest at inside
  exact wrap_of_fits (by unfold Fits least greatest; omega)

/-- A bound of amounts to shift by is within the bits of a word. -/
theorem shiftLeft?_eq_some {shifted : Bound} (shifts : left.shiftLeft? right = some shifted) :
    ∃ least most, right = ⟨finite least, finite most⟩ ∧ 0 ≤ least ∧ most ≤ 62 ∧
      shifted = left.mul (ofInts (Word.wrap (twoPow (least.emod 64).toNat))
        (Word.wrap (twoPow (most.emod 64).toNat))) := by
  unfold shiftLeft? at shifts
  obtain ⟨least, isLeast, shifts⟩ := Option.bind_eq_some_iff.mp shifts
  obtain ⟨most, isMost, shifts⟩ := Option.bind_eq_some_iff.mp shifts
  simp only [Option.ite_none_left_eq_some, Option.some.injEq, not_or, not_lt] at shifts
  refine ⟨least, most, ?_, shifts.1.1, shifts.1.2, shifts.2.symm⟩
  rw [← eq_finite_of_finite? isLeast, ← eq_finite_of_finite? isMost]

theorem bmod_shiftLeft {amount : Nat} (word : Fits first) (small : amount ≤ 62) :
    (first * twoPow amount).bmod (twoPow 128) = first * twoPow amount := by
  have positive := twoPow_pos amount
  have power : twoPow amount ≤ twoPow 62 := twoPow_mono small
  have value : twoPow 62 = 4611686018427387904 := by decide
  have modulus : twoPow 128 = 340282366920938463463374607431768211456 := by decide
  unfold Fits least greatest at word
  have high : first * twoPow amount ≤ 9223372036854775807 * 4611686018427387904 := by nlinarith
  have low : -(9223372036854775808 * 4611686018427387904) ≤ first * twoPow amount := by nlinarith
  rw [modulus]
  exact Int.bmod_eq_of_le (by omega) (by omega)

theorem contains_shiftLeft {shifted : Bound} (shifts : left.shiftLeft? right = some shifted)
    (insideFirst : Inside first)
    (inside : Inside ((first * twoPow second.toNat).bmod (twoPow 128)))
    (isFirst : left.contains first = true) (isSecond : right.contains second = true) :
    shifted.contains ((first * twoPow second.toNat).bmod (twoPow 128)) = true := by
  obtain ⟨least, most, rfl, nonneg, small, rfl⟩ := shiftLeft?_eq_some shifts
  have between := contains_iff.mp isSecond
  rw [finite_le_finite, finite_le_finite] at between
  rw [wrap_twoPow nonneg (by omega), wrap_twoPow (by omega) small]
  rw [bmod_shiftLeft insideFirst.fits (by omega)] at inside ⊢
  have low : twoPow least.toNat ≤ twoPow second.toNat := twoPow_mono (by omega)
  have high : twoPow second.toNat ≤ twoPow most.toNat := twoPow_mono (by omega)
  exact contains_mul inside isFirst
    (contains_ofInts (inside_twoPow (by omega)) (by omega) (by omega))

theorem toNat_toBits (inside : Inside first) (nonneg : 0 ≤ first) :
    (Scalar.toBits first).toNat = first.toNat := by
  unfold Inside greatest at inside
  rw [Scalar.toBits, BitVec.toNat_ofInt]
  omega

/-- The bits that an integer shares with one that is not negative are those of an integer from
zero to that one. -/
theorem toInt_and_spec (inside : Inside first) (nonneg : 0 ≤ first) (other : BitVec 128) :
    0 ≤ (Scalar.toBits first &&& other).toInt ∧ (Scalar.toBits first &&& other).toInt ≤ first := by
  have shared : (Scalar.toBits first &&& other).toNat ≤ first.toNat := by
    rw [BitVec.toNat_and, toNat_toBits inside nonneg]
    exact Nat.and_le_left
  unfold Inside greatest at inside
  rw [BitVec.toInt_eq_toNat_of_lt (by omega)]
  omega

theorem contains_bitwiseAnd {dtype : DataType} (inside : Inside first) (inside' : Inside second)
    (insideResult : Inside (Scalar.toBits first &&& Scalar.toBits second).toInt)
    (fits : dtype.fits (Scalar.toBits first &&& Scalar.toBits second).toInt = true)
    (isFirst : left.contains first = true) (isSecond : right.contains second = true) :
    (ofBitwiseAnd dtype left right).contains (Scalar.toBits first &&& Scalar.toBits second).toInt =
      true := by
  have ofFirst : left.isNonNegative = true → _ := fun isNonNegative =>
    toInt_and_spec inside (finite_le_finite.mp (Limit.le_trans (of_decide_eq_true isNonNegative)
      (contains_iff.mp isFirst).1)) (Scalar.toBits second)
  have ofSecond : right.isNonNegative = true → _ := fun isNonNegative =>
    toInt_and_spec inside' (finite_le_finite.mp (Limit.le_trans (of_decide_eq_true isNonNegative)
      (contains_iff.mp isSecond).1)) (Scalar.toBits first)
  rw [BitVec.and_comm] at ofSecond
  rw [contains_iff] at isFirst isSecond
  unfold ofBitwiseAnd
  split
  next both both' =>
    rw [contains_iff]
    exact ⟨finite_le_finite.mpr (ofFirst both).1, Limit.le_min_iff.mpr
      ⟨Limit.le_trans (finite_le_finite.mpr (ofFirst both).2) isFirst.2,
        Limit.le_trans (finite_le_finite.mpr (ofSecond both').2) isSecond.2⟩⟩
  next only _ =>
    rw [contains_iff]
    exact ⟨finite_le_finite.mpr (ofFirst only).1,
      Limit.le_trans (finite_le_finite.mpr (ofFirst only).2) isFirst.2⟩
  next _ only =>
    rw [contains_iff]
    exact ⟨finite_le_finite.mpr (ofSecond only).1,
      Limit.le_trans (finite_le_finite.mpr (ofSecond only).2) isSecond.2⟩
  next => exact contains_ofType insideResult fits

/-! ### Conversions -/

theorem ofInt_le_finite {least : Int} (inside : Inside value) :
    ofInt least ≤ finite value ↔ least ≤ value := by
  rw [← ofInt_of_inside inside]
  refine ⟨fun ordered => ?_, ofInt_mono⟩
  by_contra above
  unfold Inside at inside
  rw [ofInt_of_inside inside] at ordered
  unfold ofInt at ordered
  split at ordered
  · exact not_posInf_le_finite value ordered
  · rw [if_neg (by omega), finite_le_finite] at ordered
    exact above ordered

theorem finite_le_ofInt {most : Int} (inside : Inside value) :
    finite value ≤ ofInt most ↔ value ≤ most := by
  rw [← ofInt_of_inside inside]
  refine ⟨fun ordered => ?_, ofInt_mono⟩
  by_contra below
  unfold Inside at inside
  rw [ofInt_of_inside inside] at ordered
  unfold ofInt at ordered
  rw [if_neg (by omega)] at ordered
  split at ordered
  · exact not_finite_le_negInf value ordered
  · exact below (finite_le_finite.mp ordered)

/-- A type holds the integers of its bound. -/
theorem fits_of_contains_ofType {dtype : DataType} (notFloat : dtype.isFloat = false)
    (inside : Inside value) (member : (ofType dtype).contains value = true) :
    dtype.fits value = true := by
  unfold ofType at member
  split at member
  next least greatest isLeast isGreatest =>
    unfold DataType.fits
    rw [isLeast, isGreatest]
    have between := contains_iff.mp member
    exact decide_eq_true
      ⟨(ofInt_le_finite inside).mp between.1, (finite_le_ofInt inside).mp between.2⟩
  next unbounded =>
    obtain ⟨code, bits, lanes⟩ := dtype
    unfold DataType.fits
    cases code <;> simp_all [DataType.minInt?, DataType.maxInt?, DataType.isFloat]

/-- An integer that a type holds does not wrap around in it. -/
theorem wrap_of_fits {dtype : DataType} (isInteger : dtype.isInteger = true)
    (someBits : 1 ≤ dtype.bits) (narrow : ¬64 ≤ dtype.bits) (fits : dtype.fits value = true) :
    Scalar.wrap dtype value = value := by
  obtain ⟨code, bits, lanes⟩ := dtype
  obtain ⟨bits, rfl⟩ : ∃ less, bits = less + 1 := ⟨bits - 1, (Nat.sub_add_cancel someBits).symm⟩
  have positive := twoPow_pos bits
  have double := twoPow_succ bits
  have half : ((twoPow (bits + 1) : Nat) : Int).tdiv 2 = twoPow bits := by
    rw [Int.tdiv_eq_ediv_of_nonneg (by omega)]
    omega
  unfold Scalar.wrap
  cases code with
  | int =>
    simp only [DataType.fits, DataType.minInt?, DataType.maxInt?, if_neg narrow,
      Nat.add_sub_cancel, decide_eq_true_eq] at fits
    simp only [DataType.isInt, beq_self_eq_true, Bool.true_and, half]
    rcases lt_or_ge value 0 with negative | nonneg
    · have rest : value.emod (twoPow (bits + 1)) = value + twoPow (bits + 1) :=
        Int.emod_eq_add_self_emod.trans (Int.emod_eq_of_lt (by omega) (by omega))
      rw [rest, if_pos (decide_eq_true (by omega))]
      omega
    · have rest : value.emod (twoPow (bits + 1)) = value :=
        Int.emod_eq_of_lt nonneg (by omega)
      rw [rest, if_neg (by simpa using by omega)]
  | uint =>
    have small : 0 ≤ value ∧ value < twoPow (bits + 1) := by
      simp only [DataType.fits, DataType.minInt?, DataType.maxInt?, decide_eq_true_eq] at fits
      refine ⟨fits.1, ?_⟩
      split at fits
      next wide =>
        have width : bits + 1 = 63 := by
          simp only at wide narrow
          omega
        have value63 : twoPow 63 = 9223372036854775808 := by decide
        unfold greatest at fits
        rw [width]
        omega
      next => omega
    exact Int.emod_eq_of_lt small.1 small.2
  | float | bfloat | bool => contradiction

/-- The integers that a type of integers or truth values holds are words. -/
theorem word_of_fits {dtype : DataType} (notFloat : dtype.isFloat = false)
    (fits : dtype.fits value = true) : Fits value := by
  obtain ⟨code, bits, lanes⟩ := dtype
  have power : twoPow 62 = 4611686018427387904 := by decide
  have power' : twoPow 63 = 9223372036854775808 := by decide
  unfold Fits least greatest
  cases code with
  | int =>
    simp only [DataType.fits, DataType.minInt?, DataType.maxInt?, decide_eq_true_eq, least,
      greatest] at fits
    split at fits
    next => exact fits
    next narrow =>
      have small : twoPow (bits - 1) ≤ twoPow 62 := twoPow_mono (by omega)
      omega
  | uint =>
    simp only [DataType.fits, DataType.minInt?, DataType.maxInt?, decide_eq_true_eq,
      greatest] at fits
    split at fits
    next => omega
    next narrow =>
      have small : twoPow bits ≤ twoPow 63 := twoPow_mono (by omega)
      omega
  | bool =>
    simp only [DataType.fits, DataType.minInt?, DataType.maxInt?, decide_eq_true_eq] at fits
    omega
  | float | bfloat => contradiction

theorem le_of_ofInt_le {least : Int} (low : -greatest < least)
    (ordered : ofInt least ≤ finite value) : least ≤ value := by
  unfold ofInt at ordered
  split at ordered
  · exact absurd ordered (not_posInf_le_finite value)
  · rw [if_neg (by omega)] at ordered
    exact finite_le_finite.mp ordered

theorem le_of_le_ofInt {most : Int} (word : Fits value) (ordered : finite value ≤ ofInt most) :
    value ≤ most := by
  unfold ofInt at ordered
  split at ordered
  next high => exact Int.le_trans word.2 high
  · split at ordered
    · exact absurd ordered (not_finite_le_negInf value)
    · exact finite_le_finite.mp ordered

/-- A type of fewer than 64 bits holds the words of its bound. -/
theorem fits_of_contains_narrow {dtype : DataType} (isInteger : dtype.isInteger = true)
    (narrow : ¬64 ≤ dtype.bits) (word : Fits value)
    (member : (ofType dtype).contains value = true) : dtype.fits value = true := by
  obtain ⟨code, bits, lanes⟩ := dtype
  have small : twoPow (bits - 1) ≤ twoPow 62 := twoPow_mono (by simp only at narrow; omega)
  have power : twoPow 62 = 4611686018427387904 := by decide
  unfold DataType.fits
  unfold ofType at member
  cases code with
  | int =>
    simp only [DataType.minInt?, DataType.maxInt?, if_neg narrow] at member ⊢
    have between := contains_iff.mp member
    refine decide_eq_true ⟨le_of_ofInt_le ?_ between.1, le_of_le_ofInt word between.2⟩
    unfold greatest
    omega
  | uint =>
    simp only [DataType.minInt?, DataType.maxInt?] at member ⊢
    have between := contains_iff.mp member
    exact decide_eq_true
      ⟨le_of_ofInt_le (by decide) between.1, le_of_le_ofInt word between.2⟩
  | float | bfloat | bool => contradiction

theorem isInteger_of_not {dtype : DataType} (notFloat : dtype.isFloat = false)
    (notBool : ¬dtype.isBool = true) : dtype.isInteger = true := by
  obtain ⟨code, bits, lanes⟩ := dtype
  cases code <;> simp_all [DataType.isFloat, DataType.isBool, DataType.isInteger, DataType.isInt,
    DataType.isUint]

theorem contains_cast_bool {dtype : DataType} (isBool : dtype.isBool = true)
    (member : left.contains first = true) :
    (ofCast dtype left).contains (if first ≠ 0 then 1 else 0) = true := by
  unfold ofCast
  rw [if_pos isBool]
  split
  next noZero =>
    have nonzero : first ≠ 0 := by
      rintro rfl
      rw [member] at noZero
      contradiction
    rw [if_pos nonzero]
    decide
  next =>
    split
    next onlyZero =>
      have zero : first = 0 := by
        unfold asPoint? at onlyZero
        rw [contains_iff] at member
        split at onlyZero
        next least greatest isLeast isGreatest =>
          rw [isLeast, isGreatest, finite_le_finite, finite_le_finite] at member
          simp only [Option.ite_none_right_eq_some, Option.some.injEq] at onlyZero
          omega
        next => contradiction
      rw [if_neg (not_not.mpr zero)]
      decide
    next => exact contains_truth (by split <;> simp)

theorem contains_cast {dtype : DataType} (notFloat : dtype.isFloat = false)
    (notBool : ¬dtype.isBool = true) (someBits : 1 ≤ dtype.bits) (insideFirst : Inside first)
    (inside : Inside value) (fits : dtype.fits value = true)
    (isValue : value = if 64 ≤ dtype.bits then first else Scalar.wrap dtype first)
    (member : left.contains first = true) : (ofCast dtype left).contains value = true := by
  unfold ofCast
  rw [if_neg notBool, notFloat, Bool.false_or]
  split
  next subset =>
    have same : value = first := by
      rw [isValue]
      split
      next => rfl
      next narrow =>
        exact wrap_of_fits (isInteger_of_not notFloat notBool) someBits narrow
          (fits_of_contains_ofType notFloat insideFirst (contains_of_fits subset member))
    rwa [same]
  next => exact contains_ofType inside fits

/-! ### What bounds tell -/

section

variable {bound : Bound}

theorem eq_of_asPoint? {single : Int} (isPoint : bound.asPoint? = some single)
    (member : bound.contains value = true) : value = single := by
  obtain ⟨lower, upper⟩ := bound
  obtain ⟨low, high⟩ := contains_iff.mp member
  unfold asPoint? at isPoint
  cases lower <;> cases upper <;> simp_all
  omega

theorem nonneg_of_isNonNegative (nonNegative : bound.isNonNegative = true)
    (member : bound.contains value = true) : 0 ≤ value :=
  Limit.finite_le_finite.mp
    (Limit.le_trans (of_decide_eq_true nonNegative) (contains_iff.mp member).1)

theorem nonpos_of_isNonPositive (nonPositive : bound.isNonPositive = true)
    (member : bound.contains value = true) : value ≤ 0 :=
  Limit.finite_le_finite.mp
    (Limit.le_trans (contains_iff.mp member).2 (of_decide_eq_true nonPositive))

theorem neg_of_isNegative (negative : bound.isNegative = true)
    (member : bound.contains value = true) : value < 0 :=
  Int.not_le.mp fun nonneg => of_decide_eq_true (p := ¬finite 0 ≤ bound.upper) negative
    (Limit.le_trans (finite_le_finite.mpr nonneg) (contains_iff.mp member).2)

theorem pos_of_isPositive (positive : bound.isPositive = true)
    (member : bound.contains value = true) : 0 < value :=
  Int.not_le.mp fun nonpos => of_decide_eq_true (p := ¬bound.lower ≤ finite 0) positive
    (Limit.le_trans (contains_iff.mp member).1 (finite_le_finite.mpr nonpos))

end

/-! ### Nodes -/

theorem contains_getD {bound? : Option Bound} {dtype : DataType} (inside : Inside value)
    (fits : dtype.fits value = true)
    (sound : ∀ bound, bound? = some bound → bound.contains value = true) :
    (bound?.getD (ofType dtype)).contains value = true := by
  cases bound? with
  | none => exact contains_ofType inside fits
  | some bound => exact sound bound rfl

theorem contains_binary {dtype : DataType} {op : BinaryOp} (inside : Inside value)
    (isFirst : left.contains first = true) (isSecond : right.contains second = true)
    (result : Scalar.binaryInt? .checked dtype op first second = some (.int value)) :
    (ofBinary dtype op left right).contains value = true := by
  have inRange : ∀ number, (RangeCheck.checked dtype number).map Value.int = some (.int value) →
      dtype.fits value = true ∧ number = value := by
    intro number equal
    obtain ⟨checked, isChecked, same⟩ := Option.map_eq_some_iff.mp equal
    obtain ⟨-, fits, rfl⟩ := RangeCheck.checked_eq_some.mp isChecked
    cases same
    exact ⟨fits, rfl⟩
  unfold Scalar.binaryInt? at result
  cases op <;>
    simp only [Option.ite_none_left_eq_some, Option.some.injEq, reduceCtorEq] at result
  case add =>
    obtain ⟨-, rfl⟩ := inRange _ result
    exact contains_add inside isFirst isSecond
  case sub =>
    obtain ⟨-, rfl⟩ := inRange _ result
    exact contains_sub inside isFirst isSecond
  case mul =>
    obtain ⟨-, rfl⟩ := inRange _ result
    exact contains_mul inside isFirst isSecond
  case truncDiv =>
    obtain ⟨fits, rfl⟩ := inRange _ result.2
    exact contains_getD inside fits fun quotient divides =>
      contains_div false divides inside isFirst isSecond
  case floorDiv =>
    obtain ⟨fits, rfl⟩ := inRange _ result.2
    exact contains_getD inside fits fun quotient divides =>
      contains_div true divides inside isFirst isSecond
  case truncMod =>
    obtain ⟨fits, rfl⟩ := inRange _ result.2
    exact contains_getD inside fits fun remainder divides =>
      contains_truncMod divides (.of_contains isFirst) (.of_contains isSecond)
  case floorMod =>
    obtain ⟨fits, rfl⟩ := inRange _ result.2
    exact contains_getD inside fits fun remainder divides =>
      contains_floorMod divides (.of_contains isFirst) (.of_contains isSecond)
  case min =>
    obtain ⟨-, rfl⟩ := inRange _ result
    exact contains_minimum isFirst isSecond
  case max =>
    obtain ⟨-, rfl⟩ := inRange _ result
    exact contains_maximum isFirst isSecond

theorem contains_bitwise {dtype : DataType} {op : CallOp} (fits : dtype.fits value = true)
    (inside : Inside value) (insideFirst : Inside first) (insideSecond : Inside second)
    (isFirst : left.contains first = true) (isSecond : right.contains second = true)
    (result : Scalar.bitwise? dtype op first second = some value) :
    (ofCall dtype op [left, right]).contains value = true := by
  cases op <;> simp only [Scalar.bitwise?, Option.ite_none_right_eq_some, Option.some.injEq,
    reduceCtorEq] at result
  case shiftLeft =>
    obtain ⟨-, rfl⟩ := result
    exact contains_getD inside fits fun shifted shifts =>
      contains_shiftLeft shifts insideFirst inside isFirst isSecond
  case shiftRight =>
    obtain ⟨-, rfl⟩ := result
    exact contains_getD inside fits fun shifted shifts =>
      contains_shiftRight shifts insideFirst isFirst isSecond
  case bitwiseAnd =>
    subst result
    exact contains_bitwiseAnd insideFirst insideSecond inside fits isFirst isSecond
  case bitwiseOr | bitwiseXor => exact contains_ofType inside fits

theorem contains_foldl_union (first : Bound) (rest : List Bound)
    (member : ∃ bound ∈ first :: rest, bound.contains value = true) :
    (rest.foldl union first).contains value = true := by
  induction rest generalizing first with
  | nil =>
    obtain ⟨bound, isFirst, inBound⟩ := member
    rwa [List.mem_singleton.mp isFirst] at inBound
  | cons second rest inductionHypothesis =>
    obtain ⟨bound, isMember, inBound⟩ := member
    rw [List.foldl_cons]
    rcases List.mem_cons.mp isMember with rfl | isMember
    · exact inductionHypothesis _ ⟨_, List.mem_cons_self, contains_union_left inBound⟩
    · rcases List.mem_cons.mp isMember with rfl | inRest
      · exact inductionHypothesis _ ⟨_, List.mem_cons_self, contains_union_right inBound⟩
      · exact inductionHypothesis _ ⟨bound, List.mem_cons_of_mem _ inRest, inBound⟩

theorem contains_shuffle (dtype : DataType) {bounds : List Bound} {bound : Bound}
    (isMember : bound ∈ bounds) (member : bound.contains value = true) :
    (ofShuffle dtype bounds).contains value = true := by
  cases bounds with
  | nil => exact absurd isMember List.not_mem_nil
  | cons first rest => exact contains_foldl_union first rest ⟨bound, isMember, member⟩

end IndexAlgebra.Bound
