/-
This file proves that the intersection of two congruence classes is computed within 128-bit words.
The same computation with every operation checked gives the same class. The factors that combine two
moduli to their greatest common divisor are no larger than the moduli, and every other operand is
less than `2^63`, so that no product is larger than `2^126`.
-/
import IndexAlgebra.Proofs.Congruence

namespace IndexAlgebra

/-! ### Words of 128 bits -/

namespace Word

/-- The integer is a 128-bit signed word. -/
def Wide (value : Int) : Prop :=
  -170141183460469231731687303715884105728 ≤ value ∧
    value ≤ 170141183460469231731687303715884105727

instance (value : Int) : Decidable (Wide value) := by unfold Wide; infer_instance

/-- The integer, if it is a 128-bit word. -/
def wide? (value : Int) : Option Int := if Wide value then some value else none

/-- The quotient rounded toward zero, if the divisor is not zero and the quotient is a 128-bit
word. -/
def wideTdiv? (first second : Int) : Option Int :=
  if second = 0 then none else wide? (first.tdiv second)

/-- The remainder with the sign of the dividend, if there is a quotient. -/
def wideTmod? (first second : Int) : Option Int :=
  (wideTdiv? first second).map fun _ => first.tmod second

/-- The remainder that is not negative, if there is a quotient. -/
def wideEmod? (first second : Int) : Option Int :=
  (wideTdiv? first second).map fun _ => first.emod second

/-- The magnitude of the integer is a 64-bit word. -/
def Narrow (value : Int) : Prop := (value.natAbs : Int) ≤ greatest

/-- The integer is no larger than a product of two narrow ones and a third one. -/
def Moderate (value : Int) : Prop := (value.natAbs : Int) ≤ greatest * greatest + greatest

variable {first second third value : Int}

theorem Narrow.moderate (narrow : Narrow value) : Moderate value := Int.le_trans narrow (by decide)

theorem Narrow.add_mul (isFirst : Narrow first) (isSecond : Narrow second)
    (isThird : Narrow third) : Moderate (first + second * third) := by
  have product : ((second * third).natAbs : Int) ≤ greatest * greatest := by
    rw [Int.natAbs_mul, Int.natCast_mul]
    exact Int.mul_le_mul isSecond isThird (Int.natCast_nonneg _) (by decide)
  have sum : ((first + second * third).natAbs : Int) ≤ first.natAbs + (second * third).natAbs :=
    Int.ofNat_le.mpr (Int.natAbs_add_le ..)
  unfold Narrow at isFirst
  unfold Moderate
  omega

theorem Narrow.mul (isFirst : Narrow first) (isSecond : Narrow second) :
    Moderate (first * second) := by
  rw [← Int.zero_add (first * second)]
  exact Narrow.add_mul (by decide : (0 : Int) ≤ greatest) isFirst isSecond

theorem Narrow.of_natAbs_le_max (narrow : Narrow value)
    (smaller : first.natAbs ≤ max value.natAbs 1) :
    Narrow first := by
  unfold Narrow greatest at *
  omega

theorem Narrow.tdiv (narrow : Narrow first) (second : Int) : Narrow (first.tdiv second) :=
  narrow.of_natAbs_le_max (Nat.le_trans (Int.natAbs_tdiv_le_natAbs ..) (Nat.le_max_left ..))

theorem Narrow.tmod (narrow : Narrow first) (second : Int) : Narrow (first.tmod second) :=
  narrow.of_natAbs_le_max (Nat.le_trans (by rw [Int.natAbs_tmod]; exact Nat.mod_le ..)
    (Nat.le_max_left ..))

theorem Narrow.emod (narrow : Narrow second) (nonzero : second ≠ 0) (first : Int) :
    Narrow (first.emod second) := by
  have low : 0 ≤ first.emod second := Int.emod_nonneg _ nonzero
  have high : first.emod second < second.natAbs := Int.emod_lt _ nonzero
  exact narrow.of_natAbs_le_max (by omega)

theorem Moderate.wide? (moderate : Moderate value) : wide? value = some value := by
  refine if_pos ?_
  unfold Moderate greatest at moderate
  unfold Wide
  omega

theorem Moderate.wideTdiv? (moderate : Moderate first) (nonzero : second ≠ 0) :
    wideTdiv? first second = some (first.tdiv second) := by
  have smaller : Moderate (first.tdiv second) :=
    Int.le_trans (Int.ofNat_le.mpr (Int.natAbs_tdiv_le_natAbs ..)) moderate
  rw [Word.wideTdiv?, if_neg nonzero, smaller.wide?]

theorem Moderate.wideTmod? (moderate : Moderate first) (nonzero : second ≠ 0) :
    wideTmod? first second = some (first.tmod second) := by
  rw [Word.wideTmod?, moderate.wideTdiv? nonzero, Option.map_some]

theorem Moderate.wideEmod? (moderate : Moderate first) (nonzero : second ≠ 0) :
    wideEmod? first second = some (first.emod second) := by
  rw [Word.wideEmod?, moderate.wideTdiv? nonzero, Option.map_some]

end Word

namespace Congruence

open Word

variable {left right : Congruence}

/-! ### The greatest common divisor -/

/-- The greatest common divisor with the factors that combine two integers to it, if every operation
on the way gives a 128-bit word. -/
def bezoutWide? : Nat → Int → Int → Option (Int × Int × Int)
  | 0, left, _ => some (left, 1, 0)
  | fuel + 1, left, right =>
    if right = 0 then some (left, 1, 0)
    else do
      let rest ← wideTmod? left right
      let (divisor, first, second) ← bezoutWide? fuel right rest
      let quotient ← wideTdiv? left right
      let product ← wide? (quotient * second)
      let other ← wide? (first - product)
      some (divisor, second, other)

theorem bezout_zero (fuel : Nat) (value : Int) : bezout fuel value 0 = (value, 1, 0) := by
  cases fuel with
  | zero => rfl
  | succ fuel => rw [bezout, if_pos rfl]

/-- Each factor is no larger than the integer that it does not belong to. -/
theorem natAbs_bezout_le (fuel : Nat) (first second : Int) :
    (bezout fuel first second).2.1.natAbs ≤ max second.natAbs 1 ∧
      (bezout fuel first second).2.2.natAbs ≤ max first.natAbs 1 := by
  induction fuel generalizing first second with
  | zero => exact ⟨Nat.le_max_right .., Nat.zero_le _⟩
  | succ fuel inductionHypothesis =>
    rw [bezout]
    split
    next => exact ⟨Nat.le_max_right .., Nat.zero_le _⟩
    next nonzero =>
      have positive := Int.natAbs_pos.mpr nonzero
      have split : second.natAbs * (first.tdiv second).natAbs + (first.tmod second).natAbs =
          first.natAbs := by
        rw [Int.natAbs_tdiv, Int.natAbs_tmod]
        exact Nat.div_add_mod ..
      by_cases exact : first.tmod second = 0
      · -- the bound of the recursive call allows a factor one too large here
        rw [exact, bezout_zero]
        dsimp only
        rw [Int.mul_zero, Int.sub_zero]
        exact ⟨Nat.zero_le _, Nat.le_max_right ..⟩
      · obtain ⟨smallFirst, smallSecond⟩ := inductionHypothesis second (first.tmod second)
        generalize bezout fuel second (first.tmod second) = factors at *
        dsimp only
        rw [Nat.max_eq_left (Int.natAbs_pos.mpr exact)] at smallFirst
        rw [Nat.max_eq_left positive] at smallSecond ⊢
        refine ⟨smallSecond, Nat.le_trans ?_ (Nat.le_max_left ..)⟩
        have product : (first.tdiv second * factors.2.2).natAbs ≤
            second.natAbs * (first.tdiv second).natAbs := by
          rw [Int.natAbs_mul, Nat.mul_comm second.natAbs]
          exact Nat.mul_le_mul_left _ smallSecond
        calc (factors.2.1 - first.tdiv second * factors.2.2).natAbs
            ≤ factors.2.1.natAbs + (first.tdiv second * factors.2.2).natAbs := Int.natAbs_sub_le ..
          _ ≤ (first.tmod second).natAbs + second.natAbs * (first.tdiv second).natAbs :=
            Nat.add_le_add smallFirst product
          _ = first.natAbs := by rw [Nat.add_comm, split]

/-- The greatest common divisor of narrow integers is computed within 128-bit words. -/
theorem bezoutWide?_eq {first second : Int} (isFirst : Narrow first) (isSecond : Narrow second)
    (fuel : Nat) : bezoutWide? fuel first second = some (bezout fuel first second) := by
  induction fuel generalizing first second with
  | zero => rfl
  | succ fuel inductionHypothesis =>
    obtain ⟨-, smallOther⟩ := natAbs_bezout_le (fuel + 1) first second
    obtain ⟨-, smallSecond⟩ := natAbs_bezout_le fuel second (first.tmod second)
    rw [bezout] at smallOther ⊢
    rw [bezoutWide?]
    split
    next => rfl
    next nonzero =>
      rw [if_neg nonzero] at smallOther
      simp only [Option.bind_eq_bind, isFirst.moderate.wideTmod? nonzero, Option.bind_some,
        inductionHypothesis isSecond (isFirst.tmod second)]
      generalize bezout fuel second (first.tmod second) = factors at *
      have product := (isFirst.tdiv second).mul (isSecond.of_natAbs_le_max smallSecond)
      have other := isFirst.of_natAbs_le_max smallOther
      simp only [isFirst.moderate.wideTdiv? nonzero, Option.bind_some, product.wide?,
        other.moderate.wide?]

/-! ### The intersection -/

/-- The integers in both classes, if every operation on the way gives a 128-bit word. -/
def intersectWide? (left right : Congruence) : Option Congruence :=
  if left.modulus = 0 then some left
  else if right.modulus = 0 then some right
  else do
    let precise := if right.modulus ≤ left.modulus then left else right
    let (divisor, factor, _) ← bezoutWide? right.modulus.natAbs left.modulus right.modulus
    let distance ← wide? (right.base - left.base)
    let rest ← wideTmod? distance divisor
    let share ← wideTdiv? left.modulus divisor
    let common ← wide? (share * right.modulus)
    if rest ≠ 0 ∨ ¬Fits common then some precise
    else
      let turns ← wideTdiv? distance divisor
      let product ← wide? (turns * factor)
      let period ← wideTdiv? right.modulus divisor
      let steps ← wideEmod? product period
      let offset ← wide? (left.modulus * steps)
      let base ← wide? (left.base + offset)
      let reduced ← wideEmod? base common
      some (ofInts common reduced)

/-- Bases of classes that are no constants are less than a word apart. -/
theorem narrow_distance (isLeft : left.Normal) (isRight : right.Normal) (several : left.modulus ≠ 0)
    (alsoSeveral : right.modulus ≠ 0) : Narrow (right.base - left.base) := by
  have first := isLeft.reduced several
  have second := isRight.reduced alsoSeveral
  have smallFirst := isLeft.small
  have smallSecond := isRight.small
  unfold Narrow greatest at *
  omega

theorem Normal.narrow_base {congruence : Congruence} (normal : congruence.Normal)
    (several : congruence.modulus ≠ 0) : Narrow congruence.base := by
  have reduced := normal.reduced several
  have small := normal.small
  unfold Narrow greatest at *
  omega

theorem tdiv_ne_zero {value divisor : Int} (divides : divisor ∣ value) (nonzero : value ≠ 0) :
    value.tdiv divisor ≠ 0 := fun zero =>
  nonzero (by rw [← Int.mul_tdiv_cancel' divides, zero, Int.mul_zero])

/-- No operation of the intersection overflows a 128-bit word or divides by zero. -/
theorem intersectWide?_eq (isLeft : left.Normal) (isRight : right.Normal) :
    intersectWide? left right = some (left.intersect right) := by
  unfold intersectWide? intersect
  split
  next => rfl
  next several =>
    split
    next => rfl
    next alsoSeveral =>
      have distance := narrow_distance isLeft isRight several alsoSeveral
      have isFirst : Narrow left.modulus := isLeft.natAbs_le
      have isSecond : Narrow right.modulus := isRight.natAbs_le
      obtain ⟨-, divides, alsoDivides⟩ :=
        bezout_spec left.modulus (Nat.le_refl right.modulus.natAbs)
      obtain ⟨smallFactor, -⟩ :=
        natAbs_bezout_le right.modulus.natAbs left.modulus right.modulus
      rw [bezoutWide?_eq isFirst isSecond]
      generalize bezout right.modulus.natAbs left.modulus right.modulus = factors at *
      obtain ⟨divisor, factor, other⟩ := factors
      dsimp only at smallFactor divides alsoDivides
      have nonzero : divisor ≠ 0 := fun zero => several (Int.zero_dvd.mp (zero ▸ divides))
      have share := tdiv_ne_zero divides several
      have period := tdiv_ne_zero alsoDivides alsoSeveral
      have isFactor := isSecond.of_natAbs_le_max smallFactor
      have product := (distance.tdiv divisor).mul isFactor
      have steps := (isSecond.tdiv divisor).emod period
        ((right.base - left.base).tdiv divisor * factor)
      have base := (isLeft.narrow_base several).add_mul isFirst steps
      simp only [Option.bind_eq_bind, Option.bind_some, distance.moderate.wide?,
        distance.moderate.wideTmod? nonzero, isFirst.moderate.wideTdiv? nonzero,
        ((isFirst.tdiv divisor).mul isSecond).wide?]
      split
      next => rfl
      next fits =>
        simp only [Option.bind_some, distance.moderate.wideTdiv? nonzero, product.wide?,
          isSecond.moderate.wideTdiv? nonzero, product.wideEmod? period,
          (isFirst.mul steps).wide?, base.wide?, base.wideEmod? (mul_ne_zero share alsoSeveral)]

end Congruence

end IndexAlgebra
