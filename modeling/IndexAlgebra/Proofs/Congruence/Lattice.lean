/-
This file proves that the intersection of two congruence classes holds exactly the integers that
both of them hold, and that the union is the smallest class around both. The intersection is
computed by the Chinese remainder theorem: the progressions of two classes meet in steps of the
first one over a part of the second modulus, if their bases are a multiple of the greatest common
divisor apart.
-/
import IndexAlgebra.Proofs.Congruence.WideWords

namespace IndexAlgebra

namespace Congruence

open Word

variable {left right : Congruence} {value : Int}

/-! ### The greatest common divisor and its factors -/

theorem bezout_nonneg {fuel : Nat} {first second : Int} (isFirst : 0 ≤ first)
    (isSecond : 0 ≤ second) : 0 ≤ (bezout fuel first second).1 := by
  induction fuel generalizing first second with
  | zero => exact isFirst
  | succ fuel inductionHypothesis =>
    rw [bezout]
    split
    next => exact isFirst
    next => exact inductionHypothesis isSecond (Int.tmod_nonneg _ isFirst)

/-- The divisor of two integers that are not negative is the greatest one. -/
theorem bezout_eq_gcd {fuel : Nat} {first second : Int} (isFirst : 0 ≤ first)
    (isSecond : 0 ≤ second) (enough : second.natAbs ≤ fuel) :
    (bezout fuel first second).1 = Int.gcd first second := by
  obtain ⟨combined, divides, alsoDivides⟩ := bezout_spec first enough
  refine Int.dvd_antisymm (bezout_nonneg isFirst isSecond) (Int.natCast_nonneg _)
    (Int.dvd_coe_gcd divides alsoDivides) ?_
  rw [← combined]
  exact Int.dvd_add (Int.dvd_mul_of_dvd_left (Int.gcd_dvd_left ..))
    (Int.dvd_mul_of_dvd_left (Int.gcd_dvd_right ..))

/-! ### The intersection -/

/-- The greatest common divisor of the moduli. -/
def divisor (left right : Congruence) : Int := Int.gcd left.modulus right.modulus

/-- The factor by which the first modulus is multiplied to combine both to their divisor. -/
def factor (left right : Congruence) : Int :=
  (bezout right.modulus.natAbs left.modulus right.modulus).2.1

/-- After how many steps of the first class the second one is met again. -/
def period (left right : Congruence) : Int := right.modulus.tdiv (divisor left right)

/-- Where the progression of the first class meets that of the second one, in steps of the first. -/
def meeting (left right : Congruence) : Int :=
  ((right.base - left.base).tdiv (divisor left right) * factor left right).emod (period left right)

theorem divisor_ne_zero (several : left.modulus ≠ 0) (right : Congruence) :
    divisor left right ≠ 0 :=
  fun zero => several (Int.gcd_eq_zero_iff.mp (Int.ofNat_eq_zero.mp zero)).1

theorem divisor_mul_tdiv (left right : Congruence) :
    divisor left right * left.modulus.tdiv (divisor left right) = left.modulus :=
  Int.mul_tdiv_cancel' (Int.gcd_dvd_left ..)

theorem divisor_mul_period (left right : Congruence) :
    divisor left right * period left right = right.modulus :=
  Int.mul_tdiv_cancel' (Int.gcd_dvd_right ..)

/-- So many steps of the first class as the factor says end one common divisor after a multiple of
the second modulus. -/
theorem period_dvd (isLeft : left.Regular) (isRight : right.Regular) (several : left.modulus ≠ 0) :
    period left right ∣ left.modulus.tdiv (divisor left right) * factor left right - 1 := by
  obtain ⟨combined, -, -⟩ := bezout_spec left.modulus (Nat.le_refl right.modulus.natAbs)
  rw [bezout_eq_gcd isLeft.nonNegative isRight.nonNegative (Nat.le_refl right.modulus.natAbs)]
    at combined
  change left.modulus * factor left right + _ = divisor left right at combined
  refine ⟨-(bezout right.modulus.natAbs left.modulus right.modulus).2.2,
    mul_left_cancel₀ (divisor_ne_zero several right) ?_⟩
  linear_combination combined + factor left right * divisor_mul_tdiv left right +
    (bezout right.modulus.natAbs left.modulus right.modulus).2.2 * divisor_mul_period left right

/-- The progressions meet: the member of the first class at the meeting is in the second one too. -/
theorem dvd_meeting (isLeft : left.Regular) (isRight : right.Regular) (several : left.modulus ≠ 0)
    (overlap : divisor left right ∣ right.base - left.base) :
    right.modulus ∣ left.base + left.modulus * meeting left right - right.base := by
  obtain ⟨turns, isOne⟩ := period_dvd isLeft isRight several
  have reduced : period left right ∣
      (right.base - left.base).tdiv (divisor left right) * factor left right - meeting left right :=
    Int.dvd_self_sub_emod
  obtain ⟨rounds, isReduced⟩ := reduced
  have isFirst := divisor_mul_tdiv left right
  have isSecond := divisor_mul_period left right
  have isDistance := Int.mul_tdiv_cancel' overlap
  generalize left.modulus.tdiv (divisor left right) = share at *
  generalize (right.base - left.base).tdiv (divisor left right) = distance at *
  refine ⟨distance * turns - share * rounds, ?_⟩
  linear_combination divisor left right * distance * isOne -
    divisor left right * share * isReduced - meeting left right * isFirst + isDistance +
    (distance * turns - share * rounds) * isSecond

theorem tdiv_mul_eq_lcm (isLeft : left.Regular) (isRight : right.Regular)
    (several : left.modulus ≠ 0) :
    left.modulus.tdiv (divisor left right) * right.modulus =
      Int.lcm left.modulus right.modulus := by
  refine mul_left_cancel₀ (divisor_ne_zero several right) ?_
  have product := congrArg Nat.cast (Int.gcd_mul_lcm left.modulus right.modulus) (β := Int)
  rw [Int.natCast_mul, Int.natCast_mul, Int.natAbs_of_nonneg isLeft.nonNegative,
    Int.natAbs_of_nonneg isRight.nonNegative] at product
  rw [← Int.mul_assoc, divisor_mul_tdiv]
  exact product.symm

/-- The integers that two classes share follow each other by the least common multiple. -/
theorem intersect_eq (isLeft : left.Regular) (isRight : right.Regular) (several : left.modulus ≠ 0)
    (alsoSeveral : right.modulus ≠ 0) (overlap : divisor left right ∣ right.base - left.base)
    (fits : Fits (Int.lcm left.modulus right.modulus)) :
    left.intersect right = ofInts (Int.lcm left.modulus right.modulus)
      ((left.base + left.modulus * meeting left right).emod
        (Int.lcm left.modulus right.modulus)) := by
  have isDivisor :
      (bezout right.modulus.natAbs left.modulus right.modulus).1 = divisor left right :=
    bezout_eq_gcd isLeft.nonNegative isRight.nonNegative (Nat.le_refl _)
  unfold intersect
  rw [if_neg several, if_neg alsoSeveral]
  dsimp only
  rw [isDivisor, tdiv_mul_eq_lcm isLeft isRight several, if_neg]
  · rfl
  · exact not_or.mpr ⟨not_not.mpr (Int.tmod_eq_zero_of_dvd overlap), not_not.mpr fits⟩

/-- The bases of classes that share an integer are a multiple of the common divisor apart. -/
theorem divisor_dvd (inLeft : left.contains value = true) (inRight : right.contains value = true) :
    divisor left right ∣ right.base - left.base := by
  have first := Int.dvd_trans (Int.gcd_dvd_left _ right.modulus) (contains_iff.mp inLeft)
  have second := Int.dvd_trans (Int.gcd_dvd_right left.modulus _) (contains_iff.mp inRight)
  rw [← sub_sub_sub_cancel_left left.base right.base value]
  exact Int.dvd_sub first second

theorem contains_intersect_iff (isLeft : left.Regular) (isRight : right.Regular)
    (several : left.modulus ≠ 0) (alsoSeveral : right.modulus ≠ 0)
    (overlap : divisor left right ∣ right.base - left.base)
    (fits : Fits (Int.lcm left.modulus right.modulus)) :
    (left.intersect right).contains value = true ↔
      left.contains value = true ∧ right.contains value = true := by
  refine ⟨fun member => ?_, fun inBoth => contains_intersect inBoth.1 inBoth.2⟩
  have notLeast : (Int.lcm left.modulus right.modulus : Int) ≠ least := fun isLeast =>
    absurd (isLeast ▸ Int.natCast_nonneg _) (by decide)
  rw [intersect_eq isLeft isRight several alsoSeveral overlap fits, contains_ofInts_iff notLeast,
    dvd_sub_emod_iff] at member
  have first := Int.dvd_trans (Int.dvd_lcm_left ..) member
  have second := Int.dvd_trans (Int.dvd_lcm_right ..) member
  have stays : left.modulus ∣ left.base + left.modulus * meeting left right - left.base :=
    ⟨meeting left right, by rw [add_sub_cancel_left]⟩
  have meets := dvd_meeting isLeft isRight several overlap
  have inLeft := Int.dvd_add first stays
  have inRight := Int.dvd_add second meets
  rw [sub_add_sub_cancel] at inLeft inRight
  exact ⟨contains_iff.mpr inLeft, contains_iff.mpr inRight⟩

/-- The base of the intersection lies between zero and the least common multiple. -/
theorem base_intersect (isLeft : left.Regular) (isRight : right.Regular)
    (several : left.modulus ≠ 0) (alsoSeveral : right.modulus ≠ 0)
    (overlap : divisor left right ∣ right.base - left.base)
    (fits : Fits (Int.lcm left.modulus right.modulus)) :
    0 ≤ (left.intersect right).base ∧
      (left.intersect right).base < Int.lcm left.modulus right.modulus := by
  have positive : (0 : Int) < Int.lcm left.modulus right.modulus :=
    Int.ofNat_lt.mpr (Int.lcm_pos several alsoSeveral)
  have notLeast : (Int.lcm left.modulus right.modulus : Int) ≠ least := fun isLeast =>
    absurd (isLeast ▸ positive) (by decide)
  rw [intersect_eq isLeft isRight several alsoSeveral overlap fits, ofInts, if_neg notLeast,
    if_neg positive.ne']
  exact ⟨Int.emod_nonneg _ positive.ne', Int.emod_lt_of_pos _ positive⟩

/-! ### The union -/

theorem dvd_gcd {first second common : Int} (small : (Int.gcd first second : Int) ≤ greatest)
    (isFirst : common ∣ first) (isSecond : common ∣ second) : common ∣ Word.gcd first second := by
  rw [Word.gcd, min_eq_left small]
  exact Int.dvd_coe_gcd isFirst isSecond

/-- A class that holds the words of a class has a modulus that divides that of the class, and holds
the base. -/
theorem dvd_modulus_of_words {outer inner : Congruence} (normal : inner.Normal)
    (inside : ∀ word, Fits word → inner.contains word = true → outer.contains word = true) :
    outer.modulus ∣ inner.modulus ∧ outer.modulus ∣ inner.base - outer.base := by
  have isMember : inner.contains inner.base = true := contains_iff.mpr ⟨0, by omega⟩
  have first := contains_iff.mp (inside inner.base normal.fits isMember)
  refine ⟨?_, first⟩
  by_cases single : inner.modulus = 0
  · rw [single]
    exact Int.dvd_zero _
  · have reduced := normal.reduced single
    have small := normal.small
    -- the member one modulus below the base is a word too, and nothing above the base needs to be
    have isWord : Fits (inner.base - inner.modulus) := by
      unfold greatest at small
      unfold Fits least greatest
      omega
    have alsoMember : inner.contains (inner.base - inner.modulus) = true :=
      contains_iff.mpr ⟨-1, by omega⟩
    have second := contains_iff.mp (inside _ isWord alsoMember)
    have both := Int.dvd_sub first second
    rwa [sub_sub_sub_cancel_right, sub_sub_cancel] at both

/-- The union is the smallest class around two classes whose bases are a word apart. -/
theorem union_least {outer : Congruence} (isLeft : left.Normal) (isRight : right.Normal)
    (near : ((left.base - right.base).natAbs : Int) ≤ greatest)
    (around : ∀ word, Fits word → left.contains word = true ∨ right.contains word = true →
      outer.contains word = true)
    (member : (left.union right).contains value = true) : outer.contains value = true := by
  obtain ⟨first, fromFirst⟩ :=
    dvd_modulus_of_words isLeft fun word isWord inside => around word isWord (.inl inside)
  obtain ⟨second, fromSecond⟩ :=
    dvd_modulus_of_words isRight fun word isWord inside => around word isWord (.inr inside)
  have distance : outer.modulus ∣ left.base - right.base := by
    rw [← sub_sub_sub_cancel_right _ _ outer.base]
    exact Int.dvd_sub fromFirst fromSecond
  have moduli := dvd_gcd (intGcd_le isLeft.natAbs_le isRight.natAbs_le) first second
  have all := dvd_gcd (intGcd_le (natAbs_gcd_le left.modulus right.modulus)
    (natAbs_natCast_le near))
    moduli (Int.dvd_natAbs.mpr distance)
  unfold union at member
  dsimp only at member
  rw [if_pos ⟨Int.le_trans (by decide) (Int.natCast_nonneg _), near⟩, contains_ofInts_gcd_iff]
    at member
  rw [contains_iff, ← sub_add_sub_cancel value left.base]
  exact Int.dvd_add (Int.dvd_trans all member) fromFirst

/-! ### The lattice of classes -/

/-- The intersection and the union of two classes are their greatest lower and least upper bound,
where the results are words. -/
theorem lattice_exact (isLeft : left.Normal) (isRight : right.Normal) :
    (∀ value, left.contains value = true → right.contains value = true →
        (left.intersect right).contains value = true) ∧
      (left.modulus ≠ 0 → right.modulus ≠ 0 →
        (∃ shared, left.contains shared = true ∧ right.contains shared = true) →
        Fits (Int.lcm left.modulus right.modulus) →
        (∀ value, (left.intersect right).contains value = true ↔
          left.contains value = true ∧ right.contains value = true) ∧
        0 ≤ (left.intersect right).base ∧
        (left.intersect right).base < Int.lcm left.modulus right.modulus) ∧
      (∀ value, left.contains value = true ∨ right.contains value = true →
        (left.union right).contains value = true) ∧
      (((left.base - right.base).natAbs : Int) ≤ greatest → ∀ outer : Congruence,
        (∀ word, Fits word → left.contains word = true ∨ right.contains word = true →
          outer.contains word = true) →
        ∀ value, (left.union right).contains value = true → outer.contains value = true) ∧
      intersectWide? left right = some (left.intersect right) := by
  refine ⟨fun value => contains_intersect, ?meet,
    fun value => contains_union isLeft.toRegular isRight.toRegular,
    fun near outer around value => union_least isLeft isRight near around,
    intersectWide?_eq isLeft isRight⟩
  case meet =>
    rintro several alsoSeveral ⟨shared, inLeft, inRight⟩ fits
    have overlap := divisor_dvd inLeft inRight
    have isRegular := isLeft.toRegular
    have alsoRegular := isRight.toRegular
    exact ⟨fun value =>
        contains_intersect_iff isRegular alsoRegular several alsoSeveral overlap fits,
      base_intersect isRegular alsoRegular several alsoSeveral overlap fits⟩

/-- The classes of the moduli six and four meet in one class of the modulus twelve, and both lie in
the class of the odd integers. -/
theorem lattice_exact_six_four :
    (ofInts 6 1).intersect (ofInts 4 3) = ⟨12, 7⟩ ∧ (ofInts 6 1).union (ofInts 4 3) = ⟨2, 1⟩ ∧
      (∀ value, (⟨12, 7⟩ : Congruence).contains value = true ↔
        (ofInts 6 1).contains value = true ∧ (ofInts 4 3).contains value = true) ∧
      (∀ outer : Congruence, (∀ word, Fits word → (ofInts 6 1).contains word = true ∨
          (ofInts 4 3).contains word = true → outer.contains word = true) →
        ∀ value, (⟨2, 1⟩ : Congruence).contains value = true → outer.contains value = true) := by
  obtain ⟨-, meet, -, join, -⟩ := lattice_exact
    (normal_ofInts (by decide : Fits 6) (by decide : Fits 1))
    (normal_ofInts (by decide : Fits 4) (by decide : Fits 3))
  refine ⟨by decide, by decide, ?_, join (by decide)⟩
  exact (meet (by decide) (by decide) ⟨7, by decide, by decide⟩ (by decide)).1

end Congruence

end IndexAlgebra
