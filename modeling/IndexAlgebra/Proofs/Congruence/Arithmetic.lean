/-
This file says exactly when the sum, the difference and the product of two congruence classes hold
the sum, the difference and the product of their members. The bases are added and subtracted as
words where the results are words. Where they are not, the bases are reduced by the common modulus
and added: also for a difference, and as words, which may lose a carry. The modulus of a product is
cut to a word, and `2^63` is none.
-/
import IndexAlgebra.Proofs.Congruence
import Mathlib.Algebra.Ring.Divisibility.Basic
import Mathlib.Tactic.ByContra

namespace IndexAlgebra

/-! ### Words that wrap -/

/-- An integer between the greatest word and twice that word wraps once. -/
theorem Word.wrap_of_lt {value : Int} (large : greatest < value) (bounded : value ≤ 2 * greatest) :
    wrap value = value - size := by
  unfold greatest at large bounded
  unfold wrap
  rw [← Int.sub_bmod_right]
  exact Int.bmod_eq_of_le (by simp only [size]; omega) (by simp only [size]; omega)

theorem Word.not_fits_of_ofInt? {value : Int} (refused : ofInt? value = none) : ¬Fits value := by
  intro fits
  rw [ofInt?, if_pos fits] at refused
  cases refused

namespace Congruence

open Word

variable {left right : Congruence} {value x y : Int}

/-! ### Sums and differences -/

/-- The modulus of a sum and of a difference. -/
def commonModulus (left right : Congruence) : Int := Word.gcd left.modulus right.modulus

/-- The sum of the bases, which are reduced by the common modulus first. -/
def reducedSum (left right : Congruence) : Int :=
  left.base.emod (commonModulus left right) + right.base.emod (commonModulus left right)

/-- The sum of the classes holds the sums of their members: the sum of the bases is a word, or that
of the reduced bases is, or both classes are constants. -/
def AddsExactly (left right : Congruence) : Prop :=
  Fits (left.base + right.base) ∨ commonModulus left right = 0 ∨ Fits (reducedSum left right)

/-- The difference of the classes holds the differences of their members: the difference of the
bases is a word, or both classes are constants, or adding the bases makes no difference. -/
def SubtractsExactly (left right : Congruence) : Prop :=
  Fits (left.base - right.base) ∨ commonModulus left right = 0 ∨
    commonModulus left right ∣
      2 * right.base - if Fits (reducedSum left right) then 0 else (size : Int)

theorem commonModulus_dvd (isLeft : left.Regular) (isRight : right.Regular) :
    commonModulus left right ∣ left.modulus ∧ commonModulus left right ∣ right.modulus :=
  gcd_dvd (intGcd_le isLeft.natAbs_le isRight.natAbs_le)

/-- The members differ from the bases by multiples of the common modulus. -/
theorem commonModulus_dvd_sub (isLeft : left.Regular) (isRight : right.Regular)
    (isX : left.contains x = true) (isY : right.contains y = true) :
    commonModulus left right ∣ x - left.base ∧ commonModulus left right ∣ y - right.base := by
  obtain ⟨first, second⟩ := commonModulus_dvd isLeft isRight
  exact ⟨Int.dvd_trans first (contains_iff.mp isX), Int.dvd_trans second (contains_iff.mp isY)⟩

theorem contains_addReduced_iff : (addReduced left right).contains value = true ↔
    commonModulus left right = 0 ∨
      commonModulus left right ∣ value - wrap (reducedSum left right) := by
  have unfolded : addReduced left right =
      if commonModulus left right = 0 then everything
      else ofInts (commonModulus left right)
        ((wrap (reducedSum left right)).tmod (commonModulus left right)) := rfl
  rw [unfolded]
  split
  next zero => simp only [contains_everything, zero, true_or]
  next nonzero =>
    have reduced : commonModulus left right ∣ wrap (reducedSum left right) -
        (wrap (reducedSum left right)).tmod (commonModulus left right) := Int.dvd_self_sub_tmod
    rw [commonModulus, contains_ofInts_gcd_iff, ← commonModulus, or_iff_right nonzero,
      ← sub_add_sub_cancel value (wrap (reducedSum left right)), Int.dvd_add_left reduced]

theorem reducedSum_spec (nonzero : commonModulus left right ≠ 0) :
    (0 ≤ reducedSum left right ∧ reducedSum left right ≤ 2 * (commonModulus left right - 1)) ∧
      commonModulus left right ∣ left.base + right.base - reducedSum left right := by
  have nonNegative : 0 ≤ commonModulus left right := gcd_nonneg _ _
  have lowLeft : 0 ≤ left.base.emod (commonModulus left right) := Int.emod_nonneg _ nonzero
  have lowRight : 0 ≤ right.base.emod (commonModulus left right) := Int.emod_nonneg _ nonzero
  have highLeft : left.base.emod (commonModulus left right) < commonModulus left right :=
    Int.emod_lt_of_pos _ (by omega)
  have highRight : right.base.emod (commonModulus left right) < commonModulus left right :=
    Int.emod_lt_of_pos _ (by omega)
  refine ⟨by unfold reducedSum; omega, ?_⟩
  have first : commonModulus left right ∣ left.base - left.base.emod (commonModulus left right) :=
    Int.dvd_self_sub_emod
  have second : commonModulus left right ∣
      right.base - right.base.emod (commonModulus left right) :=
    Int.dvd_self_sub_emod
  unfold reducedSum
  have both := Int.dvd_add first second
  rwa [sub_add_sub_comm] at both

/-- The sum of the reduced bases loses a carry if it is no word. -/
theorem reducedSum_sub_wrap (nonzero : commonModulus left right ≠ 0) :
    reducedSum left right - wrap (reducedSum left right) =
      if Fits (reducedSum left right) then 0 else (size : Int) := by
  obtain ⟨⟨low, high⟩, -⟩ := reducedSum_spec nonzero
  have small : commonModulus left right ≤ greatest := gcd_le_greatest _ _
  split
  next fits => rw [wrap_of_fits fits, Int.sub_self]
  next large =>
    have above : greatest < reducedSum left right := by
      unfold Fits least at large
      omega
    rw [wrap_of_lt above (by omega)]
    omega

/-- A modulus that lets the sum of two remainders exceed a word does not divide the number of
words. -/
theorem not_commonModulus_dvd_size (nonzero : commonModulus left right ≠ 0)
    (large : ¬Fits (reducedSum left right)) : ¬commonModulus left right ∣ (size : Int) := by
  rintro ⟨factor, equal⟩
  obtain ⟨⟨low, high⟩, -⟩ := reducedSum_spec nonzero
  have small : commonModulus left right ≤ greatest := gcd_le_greatest _ _
  generalize commonModulus left right = modulus at *
  simp only [Fits, least, greatest, size] at large small equal
  -- the modulus lies between `2^62` and `2^63`, so that `2^64` could only be three times as large
  have atLeast : 2 < factor := by
    by_contra few
    have bounded : modulus * factor ≤ modulus * 2 :=
      Int.mul_le_mul_of_nonneg_left (by omega) (by omega)
    omega
  have atMost : factor < 4 := by
    by_contra many
    have bounded : modulus * 4 ≤ modulus * factor :=
      Int.mul_le_mul_of_nonneg_left (by omega) (by omega)
    omega
  obtain rfl : factor = 3 := by omega
  omega

/-- The sum of two classes holds the sums of their members exactly where no carry is lost. -/
theorem contains_add_iff (isLeft : left.Regular) (isRight : right.Regular)
    (isX : left.contains x = true) (isY : right.contains y = true) :
    (left.add right).contains (x + y) = true ↔ AddsExactly left right := by
  obtain ⟨first, second⟩ := commonModulus_dvd_sub isLeft isRight isX isY
  have apart : commonModulus left right ∣ x + y - (left.base + right.base) := by
    rw [← sub_add_sub_comm]
    exact Int.dvd_add first second
  unfold add AddsExactly
  split
  next base found =>
    obtain ⟨fits, rfl⟩ := ofInt?_eq_some_iff.mp found
    exact iff_of_true (contains_ofInts_gcd_iff.mpr apart) (.inl fits)
  next refused =>
    rw [contains_addReduced_iff, or_iff_right (not_fits_of_ofInt? refused)]
    refine or_congr_right' fun nonzero => ?_
    have reduced := (reducedSum_spec nonzero).2
    have split : x + y - wrap (reducedSum left right) =
        (x + y - (left.base + right.base)) + (left.base + right.base - reducedSum left right) +
          (reducedSum left right - wrap (reducedSum left right)) := by ring
    rw [split, Int.dvd_add_right (Int.dvd_add apart reduced), reducedSum_sub_wrap nonzero]
    split
    next fits => exact iff_of_true (Int.dvd_zero _) fits
    next large => exact iff_of_false (not_commonModulus_dvd_size nonzero large) large

/-- The difference of two classes holds the differences of their members exactly where the bases are
subtracted, or where it makes no difference that they are added. -/
theorem contains_sub_iff (isLeft : left.Regular) (isRight : right.Regular)
    (isX : left.contains x = true) (isY : right.contains y = true) :
    (left.sub right).contains (x - y) = true ↔ SubtractsExactly left right := by
  obtain ⟨first, second⟩ := commonModulus_dvd_sub isLeft isRight isX isY
  have apart : commonModulus left right ∣ x - y - (left.base - right.base) := by
    rw [sub_sub_sub_comm]
    exact Int.dvd_sub first second
  unfold sub SubtractsExactly
  split
  next base found =>
    obtain ⟨fits, rfl⟩ := ofInt?_eq_some_iff.mp found
    exact iff_of_true (contains_ofInts_gcd_iff.mpr apart) (.inl fits)
  next refused =>
    rw [contains_addReduced_iff, or_iff_right (not_fits_of_ofInt? refused)]
    refine or_congr_right' fun nonzero => ?_
    have reduced := (reducedSum_spec nonzero).2
    rw [← reducedSum_sub_wrap nonzero]
    have split : x - y - wrap (reducedSum left right) =
        (x - y - (left.base - right.base)) + (left.base + right.base - reducedSum left right) -
          (2 * right.base - (reducedSum left right - wrap (reducedSum left right))) := by ring
    rw [split, dvd_sub_right (Int.dvd_add apart reduced)]

/-! ### Products -/

/-- The products that the class of a product is made of are words. -/
def ProductsFit (left right : Congruence) : Prop :=
  Fits (left.modulus * right.modulus) ∧ Fits (left.modulus * right.base) ∧
    Fits (right.modulus * left.base) ∧ Fits (left.base * right.base)

/-- The greatest common divisor of the modulus of each class and the base of the other one is a
word, unless there is no information about the product anyway. -/
def MultipliesExactly (left right : Congruence) : Prop :=
  ProductsFit left right →
    (Int.gcd (left.modulus * right.base) (right.modulus * left.base) : Int) ≤ greatest

theorem mul_of_productsFit (fit : ProductsFit left right) :
    left.mul right = ofInts (Word.gcd (left.modulus * right.modulus)
      (Word.gcd (left.modulus * right.base) (right.modulus * left.base)))
      (left.base * right.base) := by
  obtain ⟨both, first, second, base⟩ := fit
  simp only [mul, Word.mul?, ofInt?, if_pos both, if_pos first, if_pos second, if_pos base]

theorem mul_of_not_productsFit (unfit : ¬ProductsFit left right) : left.mul right = everything := by
  unfold mul
  split
  next isBoth isFirst isSecond isBase =>
    exact absurd ⟨(ofInt?_eq_some_iff.mp isBoth).1, (ofInt?_eq_some_iff.mp isFirst).1,
      (ofInt?_eq_some_iff.mp isSecond).1, (ofInt?_eq_some_iff.mp isBase).1⟩ unfit
  next => rfl

/-- The product of two members differs from that of the bases by multiples of the products of a
modulus with the other modulus and the other base. -/
theorem exists_of_contains_mul (isX : left.contains x = true) (isY : right.contains y = true) :
    ∃ k l, x * y - left.base * right.base = left.modulus * right.modulus * (k * l) +
      (left.modulus * right.base * k + right.modulus * left.base * l) := by
  obtain ⟨k, isX⟩ := contains_iff.mp isX
  obtain ⟨l, isY⟩ := contains_iff.mp isY
  exact ⟨k, l, by linear_combination (right.modulus * l + right.base) * isX + x * isY⟩

theorem natAbs_le_of_nonneg {value : Int} (nonNegative : 0 ≤ value) (fits : Fits value) :
    (value.natAbs : Int) ≤ greatest := by
  rw [Int.natAbs_of_nonneg nonNegative]
  exact fits.2

/-- A modulus that is no word comes from a class with a single member. -/
theorem modulus_mul_modulus_eq_zero (isLeft : left.Normal) (isRight : right.Normal)
    (fit : ProductsFit left right)
    (large : greatest < (Int.gcd (left.modulus * right.base) (right.modulus * left.base) : Int)) :
    left.modulus * right.modulus = 0 := by
  by_contra nonzero
  obtain ⟨leftSeveral, rightSeveral⟩ := mul_ne_zero_iff.mp nonzero
  have first := Int.mul_nonneg isLeft.nonNegative (isRight.reduced rightSeveral).1
  have second := Int.mul_nonneg isRight.nonNegative (isLeft.reduced leftSeveral).1
  exact absurd (intGcd_le (natAbs_le_of_nonneg first fit.2.1)
    (natAbs_le_of_nonneg second fit.2.2.1))
    (Int.not_le.mpr large)

/-- The only divisor of words that is no word itself is `2^63`. -/
theorem intGcd_eq_of_large {first second : Int} (isFirst : Fits first) (isSecond : Fits second)
    (large : greatest < (Int.gcd first second : Int)) : (Int.gcd first second : Int) = -least := by
  have bounded {value : Int} (isWord : Fits value) (nonzero : value ≠ 0)
      (divides : (Int.gcd first second : Int) ∣ value) : (Int.gcd first second : Int) ≤ -least := by
    have small := Int.le_of_dvd (Int.ofNat_lt.mpr (Int.natAbs_pos.mpr nonzero))
      (Int.dvd_natAbs.mpr divides)
    unfold Fits least greatest at isWord
    unfold least
    omega
  have atMost : (Int.gcd first second : Int) ≤ -least := by
    by_cases zero : first = 0
    · refine bounded isSecond (fun alsoZero => ?_) (Int.gcd_dvd_right ..)
      rw [zero, alsoZero] at large
      exact absurd large (by decide)
    · exact bounded isFirst zero (Int.gcd_dvd_left ..)
  unfold greatest at large
  unfold least at atMost ⊢
  omega

/-- Where the modulus `2^63` of a product is cut to the greatest word, the product of the bases is
the only word in the class that is a product of members: all others are `2^63` away from it. -/
theorem contains_mul_of_large (isLeft : left.Normal) (isRight : right.Normal)
    (isX : left.contains x = true) (isY : right.contains y = true) (isProduct : Fits (x * y))
    (fit : ProductsFit left right)
    (large : greatest < (Int.gcd (left.modulus * right.base) (right.modulus * left.base) : Int)) :
    (left.mul right).contains (x * y) = true ↔ x * y = left.base * right.base := by
  obtain ⟨k, l, apart⟩ := exists_of_contains_mul isX isY
  have single := modulus_mul_modulus_eq_zero isLeft isRight fit large
  rw [single, Int.zero_mul, Int.zero_add] at apart
  have steps : (Int.gcd (left.modulus * right.base) (right.modulus * left.base) : Int) ∣
      x * y - left.base * right.base := by
    rw [apart]
    exact Int.dvd_add (Int.dvd_mul_of_dvd_left (Int.gcd_dvd_left ..))
      (Int.dvd_mul_of_dvd_left (Int.gcd_dvd_right ..))
  rw [intGcd_eq_of_large fit.2.1 fit.2.2.1 large] at steps
  have isBase := fit.2.2.2
  have cut : Word.gcd (left.modulus * right.base) (right.modulus * left.base) = greatest :=
    min_eq_right large.le
  rw [mul_of_productsFit fit, contains_ofInts_gcd_iff, single, cut,
    show Word.gcd 0 greatest = greatest by decide]
  generalize x * y = product at *
  generalize left.base * right.base = base at *
  unfold Fits least greatest at isProduct isBase
  change (9223372036854775808 : Int) ∣ product - base at steps
  unfold greatest
  omega

/-- The product of two classes holds a product of their members that is a word exactly where the
modulus is not cut, or where the product is that of the bases. -/
theorem contains_mul_iff (isLeft : left.Normal) (isRight : right.Normal)
    (isX : left.contains x = true) (isY : right.contains y = true) (isProduct : Fits (x * y)) :
    (left.mul right).contains (x * y) = true ↔
      MultipliesExactly left right ∨ x * y = left.base * right.base := by
  obtain ⟨k, l, apart⟩ := exists_of_contains_mul isX isY
  by_cases fit : ProductsFit left right
  · rw [mul_of_productsFit fit, contains_ofInts_gcd_iff, MultipliesExactly, forall_prop_of_true fit]
    by_cases exact :
        (Int.gcd (left.modulus * right.base) (right.modulus * left.base) : Int) ≤ greatest
    · refine iff_of_true ?_ (.inl exact)
      have nonNegative := Int.mul_nonneg isLeft.nonNegative isRight.nonNegative
      obtain ⟨both, rest⟩ := gcd_dvd (intGcd_le (natAbs_le_of_nonneg nonNegative fit.1)
        (natAbs_gcd_le (left.modulus * right.base) (right.modulus * left.base)))
      obtain ⟨first, second⟩ := gcd_dvd exact
      rw [apart]
      exact Int.dvd_add (Int.dvd_mul_of_dvd_left both)
        (Int.dvd_trans rest (Int.dvd_add (Int.dvd_mul_of_dvd_left first)
          (Int.dvd_mul_of_dvd_left second)))
    · rw [or_iff_right exact, ← contains_ofInts_gcd_iff, ← mul_of_productsFit fit]
      exact contains_mul_of_large isLeft isRight isX isY isProduct fit (Int.not_le.mp exact)
  · rw [mul_of_not_productsFit fit]
    exact iff_of_true (contains_everything _) (.inl fun fits => absurd fits fit)

/-! ### All classes of words -/

/-- What the sum, the difference and the product of two classes made of words hold. -/
theorem arithmetic_contains_iff {modulus base modulus' base' : Int} (isModulus : Fits modulus)
    (isBase : Fits base) (isModulus' : Fits modulus') (isBase' : Fits base')
    (isX : (ofInts modulus base).contains x = true)
    (isY : (ofInts modulus' base').contains y = true) :
    (((ofInts modulus base).add (ofInts modulus' base')).contains (x + y) = true ↔
        AddsExactly (ofInts modulus base) (ofInts modulus' base')) ∧
      (((ofInts modulus base).sub (ofInts modulus' base')).contains (x - y) = true ↔
        SubtractsExactly (ofInts modulus base) (ofInts modulus' base')) ∧
      (Fits (x * y) → (((ofInts modulus base).mul (ofInts modulus' base')).contains (x * y) = true ↔
        MultipliesExactly (ofInts modulus base) (ofInts modulus' base') ∨
          x * y = (ofInts modulus base).base * (ofInts modulus' base').base)) := by
  have isLeft := normal_ofInts isModulus isBase
  have isRight := normal_ofInts isModulus' isBase'
  exact ⟨contains_add_iff isLeft.toRegular isRight.toRegular isX isY,
    contains_sub_iff isLeft.toRegular isRight.toRegular isX isY,
    contains_mul_iff isLeft isRight isX isY⟩

/-- The bases of the greatest word alone and of the integers that are four more than a multiple of
five have no word as their sum, and the reduced ones do. -/
theorem arithmetic_contains_greatest :
    let left := ofInts 0 greatest
    let right := ofInts 5 4
    ¬Fits (left.base + right.base) ∧ (left.add right).contains (greatest + -1) = true ∧
      (left.sub right).contains (greatest - -1) = true ∧
      (left.mul right).contains (greatest * -1) = true := by
  intro left right
  obtain ⟨sum, difference, product⟩ := arithmetic_contains_iff (x := greatest) (y := -1)
    (by decide : Fits 0) (by decide : Fits greatest) (by decide : Fits 5) (by decide : Fits 4)
    (by decide) (by decide)
  refine ⟨by decide, sum.mpr (.inr (.inr (by decide))), difference.mpr (.inl (by decide)), ?_⟩
  exact (product (by decide)).mpr (.inl fun fit => absurd fit.2.2.1 (by decide))

/-- The arithmetic of classes is not sound. The difference of the smallest word and of one more than
the multiples of three is taken for their sum; the sum of two classes of the modulus `2^63 - 1`
loses a carry; and the multiples of `2^63` are taken for those of `2^63 - 1`. -/
theorem not_arithmetic_contains :
    (¬∀ modulus base modulus' base' x y, Fits modulus → Fits base → Fits modulus' → Fits base' →
      Fits x → Fits y → (ofInts modulus base).contains x = true →
      (ofInts modulus' base').contains y = true → Fits (x - y) →
      ((ofInts modulus base).sub (ofInts modulus' base')).contains (x - y) = true) ∧
    (¬∀ modulus base modulus' base' x y, Fits modulus → Fits base → Fits modulus' → Fits base' →
      Fits x → Fits y → (ofInts modulus base).contains x = true →
      (ofInts modulus' base').contains y = true → Fits (x + y) →
      ((ofInts modulus base).add (ofInts modulus' base')).contains (x + y) = true) ∧
    ¬∀ modulus base modulus' base' x y, Fits modulus → Fits base → Fits modulus' → Fits base' →
      Fits x → Fits y → (ofInts modulus base).contains x = true →
      (ofInts modulus' base').contains y = true → Fits (x * y) →
      ((ofInts modulus base).mul (ofInts modulus' base')).contains (x * y) = true := by
  refine ⟨fun sound => ?_, fun sound => ?_, fun sound => ?_⟩
  · have holds := sound 0 least 3 1 least (-2) (by decide) (by decide) (by decide) (by decide)
      (by decide) (by decide) (by decide) (by decide) (by decide)
    exact absurd holds (by decide)
  · have holds := sound greatest (greatest - 1) greatest (greatest - 1) (-1) (-1)
      (by decide) (by decide)
      (by decide) (by decide) (by decide) (by decide) (by decide) (by decide) (by decide)
    exact absurd holds (by decide)
  · have holds := sound 2 1 0 (-4611686018427387904) (-1) (-4611686018427387904)
      (by decide) (by decide)
      (by decide) (by decide) (by decide) (by decide) (by decide) (by decide) (by decide)
    exact absurd holds (by decide)

end Congruence

end IndexAlgebra
