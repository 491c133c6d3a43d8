/-
This file proves how the arithmetic of ends behaves. The sum of ends is monotone, and so is the
product with an end of a fixed sign. A quotient is monotone in the dividend, and in the divisor it
grows or falls with the sign of the dividend. An infinite end is an end like the others here, so
that the laws hold for bounds that are open on one side.
-/
import IndexAlgebra.Limit
import Mathlib.Tactic.Linarith
import Mathlib.Tactic.Ring

namespace IndexAlgebra

namespace Word

/-- The integer lies strictly between the ends that stand for the infinities. -/
def Inside (value : Int) : Prop := -greatest < value ∧ value < greatest

instance (value : Int) : Decidable (Inside value) := by unfold Inside; infer_instance

theorem Inside.fits {value : Int} (inside : Inside value) : Fits value := by
  unfold Inside greatest at inside
  unfold Fits least greatest
  omega

end Word

namespace Limit

/-! ### Quotients of integers -/

theorem divideInts_neg_neg (floor : Bool) (dividend divisor : Int) :
    divideInts floor (-dividend) (-divisor) = divideInts floor dividend divisor := by
  cases floor
  · exact Int.neg_tdiv_neg dividend divisor
  · exact Int.neg_fdiv_neg dividend divisor

theorem divideInts_of_nonneg (floor : Bool) {dividend divisor : Int} (nonneg : 0 ≤ dividend)
    (positive : 0 < divisor) : divideInts floor dividend divisor = dividend / divisor := by
  cases floor
  · exact Int.tdiv_eq_ediv_of_nonneg nonneg
  · exact Int.fdiv_eq_ediv_of_nonneg dividend positive.le

/-- A quotient below zero is rounded toward negative infinity or, without `floor`, toward zero. -/
theorem divideInts_of_nonpos (floor : Bool) {dividend divisor : Int} (nonpos : dividend ≤ 0)
    (positive : 0 < divisor) :
    divideInts floor dividend divisor =
      if floor then dividend / divisor else -(-dividend / divisor) := by
  cases floor
  · show dividend.tdiv divisor = -(-dividend / divisor)
    rw [← Int.tdiv_eq_ediv_of_nonneg (by omega : 0 ≤ -dividend), Int.neg_tdiv, Int.neg_neg]
  · exact Int.fdiv_eq_ediv_of_nonneg dividend positive.le

theorem divideInts_mono (floor : Bool) {low high divisor : Int} (positive : 0 < divisor)
    (ordered : low ≤ high) : divideInts floor low divisor ≤ divideInts floor high divisor := by
  cases floor
  · exact Int.tdiv_le_tdiv positive ordered
  · show low.fdiv divisor ≤ high.fdiv divisor
    rw [Int.fdiv_eq_ediv_of_nonneg _ positive.le, Int.fdiv_eq_ediv_of_nonneg _ positive.le]
    exact Int.ediv_le_ediv positive ordered

/-- A greater divisor gives a smaller quotient of an integer that is not negative. -/
theorem ediv_antitone {dividend low high : Int} (nonneg : 0 ≤ dividend) (positive : 0 < low)
    (ordered : low ≤ high) : dividend / high ≤ dividend / low := by
  refine Int.le_ediv_of_mul_le positive ?_
  calc dividend / high * low ≤ dividend / high * high :=
        Int.mul_le_mul_of_nonneg_left ordered (Int.ediv_nonneg nonneg (by omega))
    _ ≤ dividend := Int.ediv_mul_le dividend (by omega)

/-- A greater divisor gives a greater quotient of an integer that is not positive. -/
theorem ediv_monotone {dividend low high : Int} (nonpos : dividend ≤ 0) (positive : 0 < low)
    (ordered : low ≤ high) : dividend / low ≤ dividend / high := by
  refine Int.le_ediv_of_mul_le (by omega) ?_
  calc dividend / low * high ≤ dividend / low * low :=
        Int.mul_le_mul_of_nonpos_left (Int.ediv_le_of_le_mul positive (by omega)) ordered
    _ ≤ dividend := Int.ediv_mul_le dividend (by omega)

theorem divideInts_antitone (floor : Bool) {dividend low high : Int} (nonneg : 0 ≤ dividend)
    (positive : 0 < low) (ordered : low ≤ high) :
    divideInts floor dividend high ≤ divideInts floor dividend low := by
  rw [divideInts_of_nonneg floor nonneg positive, divideInts_of_nonneg floor nonneg (by omega)]
  exact ediv_antitone nonneg positive ordered

theorem divideInts_monotone (floor : Bool) {dividend low high : Int} (nonpos : dividend ≤ 0)
    (positive : 0 < low) (ordered : low ≤ high) :
    divideInts floor dividend low ≤ divideInts floor dividend high := by
  rw [divideInts_of_nonpos floor nonpos positive, divideInts_of_nonpos floor nonpos (by omega)]
  cases floor
  · have opposite := ediv_antitone (by omega : 0 ≤ -dividend) positive ordered
    simpa using opposite
  · exact ediv_monotone nonpos positive ordered

theorem divideInts_nonneg (floor : Bool) {dividend divisor : Int} (nonneg : 0 ≤ dividend)
    (positive : 0 < divisor) : 0 ≤ divideInts floor dividend divisor := by
  rw [divideInts_of_nonneg floor nonneg positive]
  exact Int.ediv_nonneg nonneg positive.le

/-- A quotient that is rounded down from below zero is at most minus one. -/
theorem divideInts_neg (floor : Bool) {dividend divisor : Int} (negative : dividend < 0)
    (positive : 0 < divisor) :
    divideInts floor dividend divisor ≤ if floor then -1 else 0 := by
  rw [divideInts_of_nonpos floor negative.le positive]
  cases floor
  · have quotient : 0 ≤ -dividend / divisor := Int.ediv_nonneg (by omega) positive.le
    simpa using quotient
  · have quotient := Int.ediv_neg_of_neg_of_pos negative positive
    simp only [if_true]
    omega

/-! ### Ends and integers -/

theorem ofInt_of_inside {value : Int} (inside : Word.Inside value) : ofInt value = finite value := by
  unfold Word.Inside at inside
  rw [ofInt, if_neg (by omega), if_neg (by omega)]

theorem ofInt_mono {low high : Int} (ordered : low ≤ high) : ofInt low ≤ ofInt high := by
  unfold ofInt
  split
  · rw [if_pos (by omega)]
    exact le_refl posInf
  · split
    · exact negInf_le _
    · split
      · exact le_posInf _
      · split
        next => exact absurd ordered (by omega)
        next => exact finite_le_finite.mpr ordered

theorem neg_le_neg {low high : Limit} (ordered : low ≤ high) : high.neg ≤ low.neg := by
  cases low <;> cases high <;> simp_all [neg]

/-- The sum of two lower ends is below the sum of two integers above them. -/
theorem add?_le {low low' : Limit} {left right : Int} (isLow : low ≤ finite left)
    (isLow' : low' ≤ finite right) : (low.add? low').getD negInf ≤ ofInt (left + right) := by
  cases low <;> cases low' <;> simp_all [add?]
  exact ofInt_mono (by omega)

/-- The sum of two upper ends is above the sum of two integers below them. -/
theorem le_add? {high high' : Limit} {left right : Int} (isHigh : finite left ≤ high)
    (isHigh' : finite right ≤ high') : ofInt (left + right) ≤ (high.add? high').getD posInf := by
  cases high <;> cases high' <;> simp_all [add?]
  exact ofInt_mono (by omega)

/-! ### Operations on intervals of ends -/

/-- The second end lies between the first and the third one, in one order or the other. -/
def Between (first middle last : Limit) : Prop :=
  (first ≤ middle ∧ middle ≤ last) ∨ (last ≤ middle ∧ middle ≤ first)

theorem Between.of_eq {first middle last : Limit} (left : first = middle) (right : middle = last) :
    Between first middle last := by
  subst left right
  exact .inl ⟨le_refl _, le_refl _⟩

theorem mul_comm (left right : Limit) : left.mul right = right.mul left := by
  cases left <;> cases right <;> simp [mul, sign, infinite, Int.mul_comm]

theorem mul_zero (limit : Limit) : limit.mul (finite 0) = finite 0 := by
  cases limit <;> simp [mul, ofInt, Word.greatest]

/-- A positive factor leaves an infinite end as it is. -/
theorem mul_eq_of_infinite {limit factor : Limit} (isInfinite : limit = negInf ∨ limit = posInf)
    (positive : ¬factor ≤ finite 0) : limit.mul factor = limit := by
  cases factor with
  | finite value =>
    have nonzero : value ≠ 0 := fun equal => positive (by simp [equal])
    have sign : value.sign = 1 := Int.sign_eq_one_of_pos (by simpa using positive)
    rcases isInfinite with rfl | rfl <;> simp [mul, infinite, Limit.sign, nonzero, sign]
  | negInf => exact absurd (negInf_le _) positive
  | posInf => rcases isInfinite with rfl | rfl <;> rfl

theorem finite_mul_posInf (value : Int) :
    (finite value).mul posInf = if value = 0 then finite 0 else infinite value.sign := by
  simp [mul, Limit.sign]

theorem infinite_sign (value : Int) :
    infinite value.sign = if value < 0 then negInf else posInf := by
  simp [infinite, Int.sign_neg_iff]

/-- A product of integers with an end above zero is monotone. -/
theorem finite_mul_mono {low high : Int} {factor : Limit} (ordered : low ≤ high)
    (nonneg : finite 0 ≤ factor) (positive : ¬factor ≤ finite 0) :
    (finite low).mul factor ≤ (finite high).mul factor := by
  cases factor with
  | finite factor =>
    exact ofInt_mono (Int.mul_le_mul_of_nonneg_right ordered (finite_le_finite.mp nonneg))
  | negInf => exact absurd (negInf_le _) positive
  | posInf =>
    rw [finite_mul_posInf, finite_mul_posInf, infinite_sign, infinite_sign]
    rcases lt_trichotomy low 0 with negative | equal | above
    · rw [if_neg negative.ne, if_pos negative]
      exact negInf_le _
    · rw [if_pos equal]
      by_cases same : high = 0
      · rw [if_pos same]
        exact le_refl _
      · rw [if_neg same, if_neg (by omega)]
        exact le_posInf _
    · rw [if_neg (by omega : ¬high = 0), if_neg (by omega : ¬high < 0)]
      exact le_posInf _

/-- A product with an end that is not negative is monotone. -/
theorem mul_mono {low high factor : Limit} (ordered : low ≤ high) (nonneg : finite 0 ≤ factor) :
    low.mul factor ≤ high.mul factor := by
  by_cases zero : factor ≤ finite 0
  · rw [le_antisymm zero nonneg, mul_zero, mul_zero]
    exact le_refl _
  · cases low with
    | negInf =>
      rw [mul_eq_of_infinite (.inl rfl) zero]
      exact negInf_le _
    | posInf =>
      rw [le_antisymm ordered (le_posInf high)]
      exact le_refl _
    | finite low =>
      cases high with
      | negInf => exact absurd ordered (not_finite_le_negInf low)
      | posInf =>
        rw [mul_eq_of_infinite (.inr rfl) zero]
        exact le_posInf _
      | finite high => exact finite_mul_mono (finite_le_finite.mp ordered) nonneg zero

theorem neg_neg (limit : Limit) : limit.neg.neg = limit := by
  cases limit <;> simp [neg]

theorem neg_ofInt (value : Int) : (ofInt value).neg = ofInt (-value) := by
  have positive : 0 < Word.greatest := by decide
  unfold ofInt
  split
  · rw [if_neg (by omega), if_pos (by omega)]
    rfl
  · split
    · rw [if_pos (by omega)]
      rfl
    · rw [if_neg (by omega), if_neg (by omega)]
      rfl

theorem mul_neg (left right : Limit) : left.mul right.neg = (left.mul right).neg := by
  cases left <;> cases right
  case finite.finite left right =>
    show ofInt (left * -right) = (ofInt (left * right)).neg
    rw [neg_ofInt, Int.mul_neg]
  all_goals
    simp only [mul, neg, sign, infinite, Int.sign_neg]
    grind

/-- A product with an end that is not positive is antitone. -/
theorem mul_antitone {low high factor : Limit} (ordered : low ≤ high)
    (nonpos : factor ≤ finite 0) : high.mul factor ≤ low.mul factor := by
  have opposite := neg_le_neg (mul_mono ordered (neg_le_neg nonpos))
  rwa [mul_neg, mul_neg, neg_neg, neg_neg] at opposite

theorem between_mul_right {low middle high : Limit} (factor : Limit) (isLow : low ≤ middle)
    (isHigh : middle ≤ high) :
    Between (low.mul factor) (middle.mul factor) (high.mul factor) := by
  rcases le_total (finite 0) factor with nonneg | nonpos
  · exact .inl ⟨mul_mono isLow nonneg, mul_mono isHigh nonneg⟩
  · exact .inr ⟨mul_antitone isHigh nonpos, mul_antitone isLow nonpos⟩

theorem between_mul_left {low middle high : Limit} (factor : Limit) (isLow : low ≤ middle)
    (isHigh : middle ≤ high) :
    Between (factor.mul low) (factor.mul middle) (factor.mul high) := by
  rw [factor.mul_comm, factor.mul_comm, factor.mul_comm]
  exact between_mul_right factor isLow isHigh

/-! ### Quotients of ends -/

theorem div_neg_neg (floor : Bool) (dividend divisor : Limit) :
    div floor dividend.neg divisor.neg = div floor dividend divisor := by
  cases dividend <;> cases divisor <;>
    simp [div, neg, sign, divideInts_neg_neg, Int.sign_neg, infinite]
  all_goals grind

theorem sign_of_pos {limit : Limit} (positive : ¬limit ≤ finite 0) : limit.sign = 1 := by
  cases limit with
  | finite value => exact Int.sign_eq_one_of_pos (by simpa using positive)
  | negInf => exact absurd (negInf_le _) positive
  | posInf => rfl

theorem negInf_div (floor : Bool) {divisor : Limit} (positive : ¬divisor ≤ finite 0) :
    div floor negInf divisor = negInf := by
  rw [div, sign_of_pos positive]
  · rfl
  all_goals simp

theorem posInf_div (floor : Bool) {divisor : Limit} (positive : ¬divisor ≤ finite 0) :
    div floor posInf divisor = posInf := by
  rw [div, sign_of_pos positive]
  · rfl
  all_goals simp

theorem finite_div_posInf (floor : Bool) (dividend : Int) :
    div floor (finite dividend) posInf =
      finite (if dividend < 0 then if floor then -1 else 0 else 0) := by
  rcases lt_trichotomy dividend 0 with negative | equal | positive
  · cases floor <;> simp [div, sign, Int.sign_eq_neg_one_of_neg negative, negative, negative.ne]
  · cases floor <;> simp [div, equal]
  · cases floor <;> simp [div, sign, Int.sign_eq_one_of_pos positive, positive.le]

theorem finite_div_mono (floor : Bool) {low high : Int} {divisor : Limit} (ordered : low ≤ high)
    (positive : ¬divisor ≤ finite 0) :
    div floor (finite low) divisor ≤ div floor (finite high) divisor := by
  cases divisor with
  | finite divisor => exact ofInt_mono (divideInts_mono floor (by simpa using positive) ordered)
  | negInf => exact absurd (negInf_le _) positive
  | posInf =>
    rw [finite_div_posInf, finite_div_posInf, finite_le_finite]
    grind

/-- The quotient by an end above zero is monotone. -/
theorem div_mono (floor : Bool) {low high divisor : Limit} (ordered : low ≤ high)
    (positive : ¬divisor ≤ finite 0) : div floor low divisor ≤ div floor high divisor := by
  cases low with
  | negInf =>
    rw [negInf_div floor positive]
    exact negInf_le _
  | posInf =>
    rw [le_antisymm ordered (le_posInf high)]
    exact le_refl _
  | finite low =>
    cases high with
    | negInf => exact absurd ordered (not_finite_le_negInf low)
    | posInf =>
      rw [posInf_div floor positive]
      exact le_posInf _
    | finite high => exact finite_div_mono floor (finite_le_finite.mp ordered) positive

/-- The quotient of an integer that is not negative falls as the divisor grows. -/
theorem div_antitone_divisor (floor : Bool) {dividend : Int} {low high : Limit}
    (nonneg : 0 ≤ dividend) (positive : ¬low ≤ finite 0) (ordered : low ≤ high) :
    div floor (finite dividend) high ≤ div floor (finite dividend) low := by
  match low, high with
  | negInf, _ => exact absurd (negInf_le _) positive
  | posInf, posInf => exact le_refl _
  | finite low, posInf =>
    have zero : finite 0 = ofInt 0 := by decide
    rw [finite_div_posInf, if_neg (by omega), zero]
    exact ofInt_mono (divideInts_nonneg floor nonneg (by simpa using positive))
  | finite low, finite high =>
    exact ofInt_mono (divideInts_antitone floor nonneg (by simpa using positive)
      (finite_le_finite.mp ordered))

/-- The quotient of a negative integer grows with the divisor. -/
theorem div_monotone_divisor (floor : Bool) {dividend : Int} {low high : Limit}
    (negative : dividend < 0) (positive : ¬low ≤ finite 0) (ordered : low ≤ high) :
    div floor (finite dividend) low ≤ div floor (finite dividend) high := by
  match low, high with
  | negInf, _ => exact absurd (negInf_le _) positive
  | posInf, posInf => exact le_refl _
  | finite low, posInf =>
    have limit : finite (if floor then -1 else 0) = ofInt (if floor then -1 else 0) := by
      cases floor <;> decide
    rw [finite_div_posInf, if_pos negative, limit]
    exact ofInt_mono (divideInts_neg floor negative (by simpa using positive))
  | finite low, finite high =>
    exact ofInt_mono (divideInts_monotone floor negative.le (by simpa using positive)
      (finite_le_finite.mp ordered))

theorem between_div_of_pos (floor : Bool) (dividend : Limit) {low middle high : Limit}
    (positive : ¬low ≤ finite 0) (isLow : low ≤ middle) (isHigh : middle ≤ high) :
    Between (div floor dividend low) (div floor dividend middle) (div floor dividend high) := by
  have middlePositive : ¬middle ≤ finite 0 := fun small => positive (le_trans isLow small)
  have highPositive : ¬high ≤ finite 0 := fun small => middlePositive (le_trans isHigh small)
  cases dividend with
  | negInf =>
    rw [negInf_div floor positive, negInf_div floor middlePositive, negInf_div floor highPositive]
    exact .of_eq rfl rfl
  | posInf =>
    rw [posInf_div floor positive, posInf_div floor middlePositive, posInf_div floor highPositive]
    exact .of_eq rfl rfl
  | finite dividend =>
    rcases lt_or_ge dividend 0 with negative | nonneg
    · exact .inl ⟨div_monotone_divisor floor negative positive isLow,
        div_monotone_divisor floor negative middlePositive isHigh⟩
    · exact .inr ⟨div_antitone_divisor floor nonneg middlePositive isHigh,
        div_antitone_divisor floor nonneg positive isLow⟩

theorem Between.symm {first middle last : Limit} (between : Between first middle last) :
    Between last middle first := between.elim .inr .inl

theorem not_neg_le_zero {limit : Limit} (negative : ¬finite 0 ≤ limit) :
    ¬limit.neg ≤ finite 0 := by
  intro small
  have opposite := neg_le_neg small
  rw [neg_neg] at opposite
  exact negative opposite

/-- The quotient by an end between two others that are on one side of zero. -/
theorem between_div_divisor (floor : Bool) (dividend : Limit) {low middle high : Limit}
    (oneSign : ¬low ≤ finite 0 ∨ ¬finite 0 ≤ high) (isLow : low ≤ middle) (isHigh : middle ≤ high) :
    Between (div floor dividend low) (div floor dividend middle) (div floor dividend high) := by
  rcases oneSign with positive | negative
  · exact between_div_of_pos floor dividend positive isLow isHigh
  · have opposite := between_div_of_pos floor dividend.neg (not_neg_le_zero negative)
      (neg_le_neg isHigh) (neg_le_neg isLow)
    rw [div_neg_neg, div_neg_neg, div_neg_neg] at opposite
    exact opposite.symm

/-- The quotient of an end between two others by one that is not zero. -/
theorem between_div_dividend (floor : Bool) {low middle high divisor : Limit}
    (oneSign : ¬divisor ≤ finite 0 ∨ ¬finite 0 ≤ divisor) (isLow : low ≤ middle)
    (isHigh : middle ≤ high) :
    Between (div floor low divisor) (div floor middle divisor) (div floor high divisor) := by
  rcases oneSign with positive | negative
  · exact .inl ⟨div_mono floor isLow positive, div_mono floor isHigh positive⟩
  · have first := div_mono floor (neg_le_neg isLow) (not_neg_le_zero negative)
    have second := div_mono floor (neg_le_neg isHigh) (not_neg_le_zero negative)
    rw [div_neg_neg, div_neg_neg] at first second
    exact .inr ⟨second, first⟩

end Limit

end IndexAlgebra
