/-
This file proves that operations on congruence classes are sound: the quotient and the remainder by
a constant, the class around two others, and the integers that two classes share. The greatest
common divisor of two moduli is cut to a word, and it is one unless both are zero or `2^63`. The
moduli of regular classes are too small for that.
-/
import IndexAlgebra.Knowledge.Congruences
import Mathlib.Tactic.LinearCombination
import Mathlib.Tactic.Ring

namespace IndexAlgebra

/-! ### Greatest common divisors of words -/

namespace Word

variable {left right : Int}

theorem gcd_dvd (small : (Int.gcd left right : Int) ≤ greatest) :
    gcd left right ∣ left ∧ gcd left right ∣ right := by
  rw [gcd, min_eq_left small]
  exact ⟨Int.gcd_dvd_left .., Int.gcd_dvd_right ..⟩

theorem intGcd_le_of_left (right : Int) (nonzero : left ≠ 0)
    (small : (left.natAbs : Int) ≤ greatest) :
    (Int.gcd left right : Int) ≤ greatest := by
  have divides := Nat.le_of_dvd (Int.natAbs_pos.mpr nonzero) (Nat.gcd_dvd_left _ right.natAbs)
  exact Int.le_trans (Int.ofNat_le.mpr divides) small

/-- The greatest common divisor of small integers is a word. -/
theorem intGcd_le (smallLeft : (left.natAbs : Int) ≤ greatest)
    (smallRight : (right.natAbs : Int) ≤ greatest) : (Int.gcd left right : Int) ≤ greatest := by
  by_cases zero : left = 0
  · rw [zero, Int.gcd_zero_left]
    exact smallRight
  · exact intGcd_le_of_left right zero smallLeft

theorem natAbs_natCast_le {value : Nat} (small : (value : Int) ≤ greatest) :
    ((value : Int).natAbs : Int) ≤ greatest := small

theorem gcd_nonneg (left right : Int) : 0 ≤ gcd left right :=
  le_min (Int.natCast_nonneg _) (by decide)

theorem gcd_le_greatest (left right : Int) : gcd left right ≤ greatest := min_le_right _ _

theorem natAbs_gcd_le (left right : Int) : ((gcd left right).natAbs : Int) ≤ greatest := by
  rw [Int.natAbs_of_nonneg (gcd_nonneg left right)]
  exact gcd_le_greatest left right

end Word

namespace Congruence

open Word

/-! ### Regular classes -/

/-- The modulus is a word that is not negative. Every operation gives such a class. -/
structure Regular (congruence : Congruence) : Prop where
  nonNegative : 0 ≤ congruence.modulus
  small : congruence.modulus ≤ greatest

theorem Regular.natAbs_le {congruence : Congruence} (regular : congruence.Regular) :
    (congruence.modulus.natAbs : Int) ≤ greatest := by
  rw [Int.natAbs_of_nonneg regular.nonNegative]
  exact regular.small

theorem regular_everything : everything.Regular := ⟨by decide, by decide⟩

theorem regular_constant (value : Int) : (constant value).Regular :=
  ⟨Int.le_refl 0, show (0 : Int) ≤ greatest by decide⟩

theorem regular_ofInts {modulus : Int} (fits : Fits modulus) (base : Int) :
    (ofInts modulus base).Regular := by
  unfold ofInts
  split
  next => exact regular_everything
  next notLeast =>
    split
    next => exact regular_constant base
    next =>
      unfold Fits least greatest at fits
      unfold least at notLeast
      refine ⟨Int.natCast_nonneg _, ?_⟩
      unfold greatest
      simp only
      omega

/-- A regular class whose base is a word, and less than the modulus unless the class is a
constant. -/
structure Normal (congruence : Congruence) : Prop extends Regular congruence where
  fits : Fits congruence.base
  reduced : congruence.modulus ≠ 0 → 0 ≤ congruence.base ∧ congruence.base < congruence.modulus

theorem normal_ofInts {modulus base : Int} (isModulus : Fits modulus) (isBase : Fits base) :
    (ofInts modulus base).Normal := by
  refine ⟨regular_ofInts isModulus base, ?_, ?_⟩
  · unfold ofInts
    split
    · exact ⟨by decide, by decide⟩
    · split
      · exact isBase
      next nonzero =>
        have low : 0 ≤ base.emod modulus := Int.emod_nonneg _ nonzero
        have high : base.emod modulus < modulus.natAbs := Int.emod_lt _ nonzero
        unfold Fits least greatest at isModulus ⊢
        simp only
        omega
  · unfold ofInts
    split
    · exact fun _ => ⟨by decide, by decide⟩
    · split
      · exact fun several => absurd rfl several
      next nonzero => exact fun _ => ⟨Int.emod_nonneg _ nonzero, Int.emod_lt _ nonzero⟩

theorem regular_ofInts_gcd (left right base : Int) :
    (ofInts (Word.gcd left right) base).Regular := by
  refine regular_ofInts ⟨?_, gcd_le_greatest left right⟩ base
  exact Int.le_trans (by decide) (gcd_nonneg left right)

/-- An integer and its remainder have the same distance to a class of the divisor. -/
theorem dvd_sub_emod_iff {modulus value base : Int} :
    modulus ∣ value - base.emod modulus ↔ modulus ∣ value - base := by
  have reduced : modulus ∣ base - base.emod modulus := Int.dvd_self_sub_emod
  rw [← sub_add_sub_cancel value base (base.emod modulus)]
  exact Int.dvd_add_left reduced

theorem contains_ofInts_iff {modulus base value : Int} (notLeast : modulus ≠ least) :
    (ofInts modulus base).contains value = true ↔ modulus ∣ value - base := by
  unfold ofInts
  rw [if_neg notLeast]
  split
  next zero => rw [contains_constant, zero, Int.zero_dvd, Int.sub_eq_zero]
  next => rw [contains_iff, Int.natAbs_dvd, dvd_sub_emod_iff]

theorem contains_ofInts_gcd_iff {first second base value : Int} :
    (ofInts (Word.gcd first second) base).contains value = true ↔
      Word.gcd first second ∣ value - base := by
  refine contains_ofInts_iff fun isLeast => ?_
  have nonNegative := gcd_nonneg first second
  rw [isLeast] at nonNegative
  exact absurd nonNegative (by decide)

section

variable {left right : Congruence}

theorem regular_addReduced (left right : Congruence) : (addReduced left right).Regular := by
  unfold addReduced
  dsimp only
  split
  · exact regular_everything
  · exact regular_ofInts_gcd _ _ _

theorem regular_add (left right : Congruence) : (left.add right).Regular := by
  unfold add
  split
  · exact regular_ofInts_gcd _ _ _
  · exact regular_addReduced left right

theorem regular_sub (left right : Congruence) : (left.sub right).Regular := by
  unfold sub
  split
  · exact regular_ofInts_gcd _ _ _
  · exact regular_addReduced left right

theorem regular_mul (left right : Congruence) : (left.mul right).Regular := by
  unfold mul
  split
  · exact regular_ofInts_gcd _ _ _
  · exact regular_everything

theorem regular_union (left right : Congruence) : (left.union right).Regular :=
  regular_ofInts_gcd _ _ _

theorem fits_tdiv (regular : left.Regular) (divisor : Int) : Fits (left.modulus.tdiv divisor) := by
  have smaller := Int.natAbs_tdiv_le_natAbs left.modulus divisor
  have small := regular.natAbs_le
  unfold greatest at small
  unfold Fits least greatest
  omega

theorem regular_divConst (regular : left.Regular) (divisor : Int) (floor nonNegative : Bool) :
    (left.divConst divisor floor nonNegative).Regular := by
  unfold divConst
  split
  · exact regular_everything
  · split
    · split
      · exact regular_constant _
      · exact regular_everything
    · split
      · exact regular_ofInts (fits_tdiv regular divisor) 0
      · split
        · exact regular_ofInts (fits_tdiv regular divisor) _
        · exact regular_everything

theorem regular_modConst (congruence : Congruence) (divisor : Int) (floor : Bool) :
    (congruence.modConst divisor floor).Regular := by
  unfold modConst
  split
  · exact regular_everything
  · split
    · split
      · exact regular_everything
      · exact regular_constant _
    · exact regular_ofInts_gcd _ _ _

theorem regular_intersect (isLeft : left.Regular) (isRight : right.Regular) :
    (left.intersect right).Regular := by
  unfold intersect
  split
  · exact isLeft
  · split
    · exact isRight
    · dsimp only
      split
      · split
        · exact isLeft
        · exact isRight
      next fits => exact regular_ofInts (of_not_not (not_or.mp fits).2) _

end

/-! ### Multiples of the members -/

theorem base_ofInts_zero (modulus : Int) : (ofInts modulus 0).base = 0 := by
  unfold ofInts
  split
  · rfl
  · split
    · rfl
    · exact Int.zero_emod modulus

/-- The class of all multiples has the base zero. -/
theorem base_mul_everything (congruence : Congruence) : (congruence.mul everything).base = 0 := by
  unfold mul
  split
  next found =>
    obtain ⟨-, rfl⟩ := ofInt?_eq_some_iff.mp found
    simp only [everything, Int.mul_zero]
    exact base_ofInts_zero _
  next => rfl

/-- A member and a multiple of the other modulus add up to a member of the sum, if the other class
has the base zero. -/
theorem contains_add_multiple {left right : Congruence} {value multiple : Int}
    (isLeft : left.Regular) (isRight : right.Regular) (zero : right.base = 0)
    (member : left.contains value = true) (divides : right.modulus ∣ multiple) :
    (left.add right).contains (value + multiple) = true := by
  have common := gcd_dvd (intGcd_le isLeft.natAbs_le isRight.natAbs_le)
  have inside : Word.gcd left.modulus right.modulus ∣ value + multiple - left.base := by
    rw [add_sub_right_comm]
    exact Int.dvd_add (Int.dvd_trans common.1 (contains_iff.mp member))
      (Int.dvd_trans common.2 divides)
  unfold add
  rw [zero]
  split
  next found =>
    obtain ⟨-, rfl⟩ := ofInt?_eq_some_iff.mp found
    rw [Int.add_zero]
    exact contains_ofInts inside
  next =>
    unfold addReduced
    rw [zero]
    have small := gcd_le_greatest left.modulus right.modulus
    have nonNegative := gcd_nonneg left.modulus right.modulus
    generalize Word.gcd left.modulus right.modulus = modulus at inside small nonNegative ⊢
    dsimp only
    split
    next => exact contains_everything _
    next nonzero =>
      have low : 0 ≤ left.base.emod modulus := Int.emod_nonneg _ nonzero
      have high : left.base.emod modulus < modulus := Int.emod_lt_of_pos _ (by omega)
      rw [show Int.emod 0 modulus = 0 from Int.zero_emod _, Int.add_zero,
        wrap_of_fits ⟨Int.le_trans (by decide) low, by omega⟩,
        Int.tmod_eq_of_lt low high]
      exact contains_ofInts (dvd_sub_emod_iff.mpr inside)

/-! ### Quotients and remainders by a constant -/

section

variable {congruence : Congruence} {value divisor : Int}

/-- A member of a class with a modulus that the divisor divides is a multiple of the divisor more
than the base. -/
theorem exists_of_contains (member : congruence.contains value = true)
    (divides : congruence.modulus.tmod divisor = 0) :
    ∃ factor, congruence.modulus = divisor * (congruence.modulus.tdiv divisor) ∧
      value = divisor * (congruence.modulus.tdiv divisor * factor) + congruence.base := by
  have split := Int.mul_tdiv_add_tmod congruence.modulus divisor
  rw [divides, Int.add_zero] at split
  obtain ⟨factor, equal⟩ := contains_iff.mp member
  refine ⟨factor, split.symm, ?_⟩
  rw [← Int.mul_assoc, split]
  omega

theorem eq_base_of_contains (member : congruence.contains value = true)
    (single : congruence.modulus = 0) : value = congruence.base := by
  rw [contains, if_pos single, beq_iff_eq] at member
  exact member

theorem contains_ofInts_mul (modulus factor base : Int) :
    (ofInts modulus base).contains (modulus * factor + base) = true :=
  contains_ofInts ⟨factor, by omega⟩

/-- A quotient rounded down is in the class of the quotients. -/
theorem contains_divConst_floor (nonzero : divisor ≠ 0) (nonNegative : Bool)
    (member : congruence.contains value = true) :
    (congruence.divConst divisor true nonNegative).contains (value.fdiv divisor) = true := by
  unfold divConst
  split
  · exact contains_everything _
  next divides =>
    obtain ⟨factor, -, equal⟩ := exists_of_contains member (not_not.mp (not_or.mp divides).2)
    split
    next single =>
      split
      · rw [if_pos rfl, contains_constant, eq_base_of_contains member single]
      · exact contains_everything _
    · split
      next zero =>
        rw [zero, Int.add_zero] at equal
        rw [equal, Int.mul_fdiv_cancel_left _ nonzero]
        simpa using contains_ofInts_mul (congruence.modulus.tdiv divisor) factor 0
      · split
        next positive =>
          rw [equal, Int.fdiv_eq_ediv_of_nonneg _ positive.2.1.le, Int.add_comm,
            Int.add_mul_ediv_left _ _ nonzero, Int.add_comm,
            Int.tdiv_eq_ediv_of_nonneg positive.1.le]
          exact contains_ofInts_mul _ factor _
        · exact contains_everything _

/-- A quotient rounded toward zero is in the class of the quotients. -/
theorem contains_divConst_trunc (nonzero : divisor ≠ 0) {nonNegative : Bool}
    (isNonNegative : nonNegative = true → 0 ≤ value) (member : congruence.contains value = true) :
    (congruence.divConst divisor false nonNegative).contains (value.tdiv divisor) = true := by
  unfold divConst
  split
  · exact contains_everything _
  next divides =>
    obtain ⟨factor, -, equal⟩ := exists_of_contains member (not_not.mp (not_or.mp divides).2)
    split
    next single =>
      split
      next quotient found =>
        rw [Word.tdiv?, if_neg nonzero] at found
        rw [if_neg Bool.false_ne_true, contains_constant, eq_base_of_contains member single]
        exact (ofInt?_eq_some_iff.mp found).2
      · exact contains_everything _
    · split
      next zero =>
        rw [zero, Int.add_zero] at equal
        rw [equal, Int.mul_tdiv_cancel_left _ nonzero]
        simpa using contains_ofInts_mul (congruence.modulus.tdiv divisor) factor 0
      · split
        next positive =>
          have above := isNonNegative (by simpa using positive.2.2)
          rw [Int.tdiv_eq_ediv_of_nonneg above, equal, Int.add_comm,
            Int.add_mul_ediv_left _ _ nonzero, Int.add_comm,
            Int.tdiv_eq_ediv_of_nonneg positive.1.le]
          exact contains_ofInts_mul _ factor _
        · exact contains_everything _

/-- A remainder is in the class of the remainders if it differs from the dividend by a multiple of
the divisor, and is the remainder of the base if there is only one dividend. -/
theorem contains_modConst {floor : Bool} {remainder : Int} (regular : congruence.Regular)
    (member : congruence.contains value = true) (differs : divisor ∣ value - remainder)
    (ofBase : value = congruence.base → remainder =
      if floor then congruence.base.fmod divisor else congruence.base.tmod divisor) :
    (congruence.modConst divisor floor).contains remainder = true := by
  unfold modConst
  split
  · exact contains_everything _
  · split
    next single =>
      split
      · exact contains_everything _
      · exact contains_constant.mpr (ofBase (eq_base_of_contains member single))
    next several =>
      have divides := gcd_dvd (intGcd_le_of_left divisor several regular.natAbs_le)
      have isMember := Int.dvd_trans divides.1 (contains_iff.mp member)
      have isMultiple := Int.dvd_trans divides.2 differs
      refine contains_ofInts ?_
      rw [← sub_sub_sub_cancel_left congruence.base remainder value]
      exact Int.dvd_sub isMember isMultiple

theorem contains_modConst_floor (regular : congruence.Regular)
    (member : congruence.contains value = true) :
    (congruence.modConst divisor true).contains (value.fmod divisor) = true := by
  refine contains_modConst regular member ⟨value.fdiv divisor, ?_⟩ ?_
  · have split := Int.mul_fdiv_add_fmod value divisor
    omega
  · rintro rfl
    rfl

theorem contains_modConst_trunc (regular : congruence.Regular)
    (member : congruence.contains value = true) :
    (congruence.modConst divisor false).contains (value.tmod divisor) = true := by
  refine contains_modConst regular member ⟨value.tdiv divisor, ?_⟩ ?_
  · have split := Int.mul_tdiv_add_tmod value divisor
    omega
  · rintro rfl
    rfl

/-- The quotients and the remainders of the members of any class are in the classes of the quotients
and of the remainders, in both roundings and for a divisor of either sign. -/
theorem division_contains {modulus base : Int} (isModulus : Fits modulus) (nonzero : divisor ≠ 0)
    (member : (ofInts modulus base).contains value = true) :
    (∀ nonNegative, ((ofInts modulus base).divConst divisor true nonNegative).contains
        (value.fdiv divisor) = true) ∧
      ((ofInts modulus base).divConst divisor false false).contains (value.tdiv divisor) = true ∧
      (0 ≤ value →
        ((ofInts modulus base).divConst divisor false true).contains (value.tdiv divisor) = true) ∧
      ((ofInts modulus base).modConst divisor true).contains (value.fmod divisor) = true ∧
      ((ofInts modulus base).modConst divisor false).contains (value.tmod divisor) = true := by
  have regular := regular_ofInts isModulus base
  exact ⟨fun nonNegative => contains_divConst_floor nonzero nonNegative member,
    contains_divConst_trunc nonzero (fun isTrue => absurd isTrue Bool.false_ne_true) member,
    fun above => contains_divConst_trunc nonzero (fun _ => above) member,
    contains_modConst_floor regular member, contains_modConst_trunc regular member⟩

/-- The quotients of the multiples of eight by minus four are even, and so are those of the integers
three more than them by four. The quotient of the smallest word by minus one is no word, and its
remainder is not computed. -/
theorem division_contains_eight :
    (ofInts 8 0).divConst (-4) true false = ⟨2, 0⟩ ∧
      (⟨2, 0⟩ : Congruence).contains ((-24 : Int).fdiv (-4)) = true ∧
      (ofInts 8 3).divConst 4 false true = ⟨2, 0⟩ ∧
      (⟨2, 0⟩ : Congruence).contains ((19 : Int).tdiv 4) = true ∧
      (ofInts 0 least).modConst (-1) true = everything ∧
      ((ofInts 0 least).modConst (-1) true).contains (least.fmod (-1)) = true := by
  obtain ⟨negative, -⟩ := division_contains (by decide : Fits 8) (by decide : (-4 : Int) ≠ 0)
    (by decide : (ofInts 8 0).contains (-24) = true)
  obtain ⟨-, -, above, -⟩ := division_contains (by decide : Fits 8) (by decide : (4 : Int) ≠ 0)
    (by decide : (ofInts 8 3).contains 19 = true)
  obtain ⟨-, -, -, overflows, -⟩ :=
    division_contains (by decide : Fits 0) (by decide : (-1 : Int) ≠ 0)
    (by decide : (ofInts 0 least).contains least = true)
  exact ⟨by decide, negative false, by decide, above (by decide), by decide, overflows⟩

end

/-! ### The class around two classes -/

section

variable {left right : Congruence} {value : Int}

/-- The modulus of the class around two classes divides both moduli and the distance of the
bases. -/
theorem contains_union (isLeft : left.Regular) (isRight : right.Regular)
    (member : left.contains value = true ∨ right.contains value = true) :
    (left.union right).contains value = true := by
  unfold union
  dsimp only
  have moduli := gcd_dvd (intGcd_le isLeft.natAbs_le isRight.natAbs_le)
  split
  next fits =>
    have small := gcd_dvd
      (intGcd_le (natAbs_gcd_le left.modulus right.modulus) (natAbs_natCast_le fits.2))
    refine contains_ofInts ?_
    rcases member with isMember | isMember
    · exact Int.dvd_trans small.1 (Int.dvd_trans moduli.1 (contains_iff.mp isMember))
    · have distance := Int.dvd_natAbs.mp small.2
      have inside := Int.dvd_trans small.1 (Int.dvd_trans moduli.2 (contains_iff.mp isMember))
      rw [show value - left.base = (value - right.base) - (left.base - right.base) by ring]
      exact Int.dvd_sub inside distance
  next =>
    have one : Word.gcd (Word.gcd left.modulus right.modulus) 1 = 1 := by
      rw [Word.gcd, Int.gcd_one]
      decide
    rw [one]
    exact contains_ofInts (Int.one_dvd _)

end

/-! ### The integers that two classes share -/

/-- The factors combine the integers to a common divisor of them. -/
theorem bezout_spec {fuel : Nat} (left : Int) {right : Int} (enough : right.natAbs ≤ fuel) :
    left * (bezout fuel left right).2.1 + right * (bezout fuel left right).2.2 =
        (bezout fuel left right).1 ∧
      (bezout fuel left right).1 ∣ left ∧ (bezout fuel left right).1 ∣ right := by
  induction fuel generalizing left right with
  | zero =>
    have zero : right = 0 := Int.natAbs_eq_zero.mp (Nat.le_zero.mp enough)
    simp [bezout, zero]
  | succ fuel inductionHypothesis =>
    rw [bezout]
    split
    next zero => simp [zero]
    next nonzero =>
      have smaller : (left.tmod right).natAbs < right.natAbs := by
        rw [Int.natAbs_tmod]
        exact Nat.mod_lt _ (Int.natAbs_pos.mpr nonzero)
      obtain ⟨combined, first, second⟩ :=
        inductionHypothesis right (Nat.le_of_lt_succ (Nat.lt_of_lt_of_le smaller enough))
      have split := Int.mul_tdiv_add_tmod left right
      refine ⟨?_, ?_, first⟩
      · linear_combination combined - (bezout fuel right (left.tmod right)).2.2 * split
      · have isLeft := Int.dvd_add (Int.dvd_mul_of_dvd_left (c := left.tdiv right) first) second
        rwa [split] at isLeft

/-- Two progressions meet in steps of the second one over the greatest common divisor. The first
step where they do is a multiple of the factor that combines the moduli to their divisor. -/
theorem dvd_sub_steps {first second factor other distance steps turns : Int}
    (combined : first * factor + second * other = 1)
    (meets : first * steps - second * turns = distance) :
    second ∣ steps - (distance * factor).emod second := by
  rw [dvd_sub_emod_iff]
  exact ⟨other * steps + turns * factor, by linear_combination (-steps) * combined + factor * meets⟩

/-- An integer in both classes is in their intersection. -/
theorem contains_intersect {left right : Congruence} {value : Int}
    (isLeft : left.contains value = true) (isRight : right.contains value = true) :
    (left.intersect right).contains value = true := by
  unfold intersect
  split
  · exact isLeft
  next notLeft =>
    split
    · exact isRight
    next notRight =>
      dsimp only
      split
      · split
        · exact isLeft
        · exact isRight
      next shares =>
        obtain ⟨combined, first, second⟩ := bezout_spec left.modulus
          (Nat.le_refl right.modulus.natAbs)
        generalize bezout right.modulus.natAbs left.modulus right.modulus = factors at *
        obtain ⟨divisor, factor, other⟩ := factors
        obtain ⟨steps, inLeft⟩ := contains_iff.mp isLeft
        obtain ⟨turns, inRight⟩ := contains_iff.mp isRight
        obtain ⟨distance, apart⟩ := Int.dvd_of_tmod_eq_zero (not_not.mp (not_or.mp shares).1)
        obtain ⟨first, isFirst⟩ := first
        obtain ⟨second, isSecond⟩ := second
        dsimp only at combined isFirst isSecond apart ⊢
        have nonzero : divisor ≠ 0 := fun zero => notLeft (by rw [isFirst, zero, Int.zero_mul])
        rw [isFirst, isSecond] at combined
        rw [isFirst] at inLeft
        rw [isSecond] at inRight
        rw [isFirst, isSecond, apart, Int.mul_tdiv_cancel_left _ nonzero,
          Int.mul_tdiv_cancel_left _ nonzero, Int.mul_tdiv_cancel_left _ nonzero]
        have inverse : first * factor + second * other = 1 :=
          mul_left_cancel₀ nonzero (by linear_combination combined)
        have meets : first * steps - second * turns = distance :=
          mul_left_cancel₀ nonzero (by linear_combination inRight - inLeft + apart)
        obtain ⟨more, equal⟩ := dvd_sub_steps inverse meets
        refine contains_ofInts (dvd_sub_emod_iff.mpr ⟨more, ?_⟩)
        linear_combination inLeft + divisor * first * equal

end Congruence

end IndexAlgebra
