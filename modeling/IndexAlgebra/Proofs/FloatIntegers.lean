/-
This file says which integers are floating-point numbers. An integer is rounded to 53 significant bits,
so that it is kept if and only if the bits below them are zero and it is not beyond the range.
-/
import IndexAlgebra.Proofs.Bound.Monotonicity
import Mathlib.Tactic.FieldSimp

namespace IndexAlgebra.Binary64

/-- The number that a finite floating-point number is. -/
def toRat (number : Binary64) : ℚ :=
  (if number.isNegative then -1 else 1) * (number.significand * 2 ^ number.exponent)

/-- The floating-point number is finite, and it is the integer. -/
def IsInt (number : Binary64) (value : Int) : Prop :=
  number.isFinite = true ∧ number.toRat = value

/-- The integer has no more than 53 significant bits, and it is smaller than the infinities in
magnitude. -/
def HoldsInt (value : Int) : Prop :=
  value.natAbs.log2 < 1024 ∧ twoPow (value.natAbs.log2 - 52) ∣ value.natAbs

instance (value : Int) : Decidable (HoldsInt value) := by unfold HoldsInt; infer_instance

/-! ### Numbers from their parts -/

theorem magnitude_ofParts {negative : Bool} {magnitude : Nat} (small : magnitude < signWeight) :
    (ofParts negative magnitude).magnitude = magnitude := by
  rw [Binary64.magnitude, toNat_ofParts small]
  split
  · rw [Nat.add_mod_left, Nat.mod_eq_of_lt small]
  · rw [Nat.zero_add, Nat.mod_eq_of_lt small]

theorem isNegative_ofParts {negative : Bool} {magnitude : Nat} (small : magnitude < signWeight) :
    (ofParts negative magnitude).isNegative = negative := by
  rw [isNegative, toNat_ofParts small]
  cases negative
  · exact decide_eq_false (by simpa using small)
  · exact decide_eq_true (by simp)

/-- A magnitude is taken apart where it was put together. Bits that are the next power of two carry
into the exponent, and the number is the same. -/
theorem toRat_ofParts {negative : Bool} {biased bits : Nat} (low : exponentWeight ≤ bits)
    (high : bits ≤ 2 * exponentWeight)
    (finite : biased * exponentWeight + bits < infiniteMagnitude) :
    (ofParts negative (biased * exponentWeight + bits)).toRat =
      (if negative then -1 else 1) * (bits * 2 ^ ((biased : Int) - 1074)) := by
  have weight : exponentWeight = 4503599627370496 := by decide
  have limit : infiniteMagnitude = 9218868437227405312 := by decide
  have sign : signWeight = 9223372036854775808 := by decide
  have small : biased * exponentWeight + bits < signWeight := by omega
  unfold toRat significand exponent
  rw [isNegative_ofParts small, magnitude_ofParts small]
  simp only [weight] at low high ⊢
  congr 1
  rw [if_neg (by omega)]
  rcases Nat.lt_or_ge bits (2 * 4503599627370496) with below | above
  · have quotient : (biased * 4503599627370496 + bits) / 4503599627370496 = biased + 1 := by omega
    have rest : 4503599627370496 + (biased * 4503599627370496 + bits) % 4503599627370496 = bits := by
      omega
    have power : ((Nat.max (biased + 1) 1 : Nat) : Int) - 1075 = (biased : Int) - 1074 := by
      rw [show Nat.max (biased + 1) 1 = biased + 1 from Nat.max_eq_left (by omega)]
      omega
    rw [quotient, rest, power]
  · have carried : bits = 2 * 4503599627370496 := Nat.le_antisymm high above
    have quotient : (biased * 4503599627370496 + bits) / 4503599627370496 = biased + 2 := by omega
    have rest : (biased * 4503599627370496 + bits) % 4503599627370496 = 0 := by omega
    have power : ((Nat.max (biased + 2) 1 : Nat) : Int) - 1075 = (biased : Int) - 1074 + 1 := by
      rw [show Nat.max (biased + 2) 1 = biased + 2 from Nat.max_eq_left (by omega)]
      omega
    rw [quotient, rest, power, carried, zpow_add_one₀ (two_ne_zero)]
    push_cast
    ring

theorem isFinite_ofParts {negative : Bool} {magnitude : Nat} (small : magnitude < signWeight) :
    (ofParts negative magnitude).isFinite = decide (magnitude < infiniteMagnitude) := by
  rw [isFinite, magnitude_ofParts small]

/-! ### Rounding of integers -/

variable {value divisor power : Nat}

theorem twoPow_eq (exponent : Nat) : twoPow exponent = 2 ^ exponent := rfl

/-- A positive integer is scaled to any number of bits by its own number of bits. -/
theorem scaleDown_bits (positive : value ≠ 0) (bits : Nat) :
    twoPow bits ≤ (scaleDown value 1 ((value.log2 : Int) - bits)).1 /
        (scaleDown value 1 ((value.log2 : Int) - bits)).2 ∧
      (scaleDown value 1 ((value.log2 : Int) - bits)).1 /
        (scaleDown value 1 ((value.log2 : Int) - bits)).2 < twoPow (bits + 1) := by
  have low := Nat.log2_self_le positive
  have high : value < 2 ^ (value.log2 + 1) := Nat.lt_log2_self
  simp only [scaleDown, twoPow_eq, Nat.one_mul]
  by_cases wide : (bits : Int) ≤ value.log2
  · obtain ⟨extra, isExtra⟩ : ∃ extra : Nat, value.log2 = bits + extra :=
      ⟨value.log2 - bits, by omega⟩
    have power : ((value.log2 : Int) - bits).toNat = extra := by omega
    rw [if_pos (by omega)]
    simp only [power]
    rw [isExtra] at low high
    rw [Nat.le_div_iff_mul_le (by positivity), Nat.div_lt_iff_lt_mul (by positivity),
      ← Nat.pow_add, ← Nat.pow_add]
    exact ⟨low, high.trans_eq (congrArg _ (by omega))⟩
  · obtain ⟨missing, isMissing⟩ : ∃ missing : Nat, bits = value.log2 + missing :=
      ⟨bits - value.log2, by omega⟩
    have power : (-((value.log2 : Int) - bits)).toNat = missing := by omega
    rw [if_neg (by omega)]
    simp only [power, Nat.div_one]
    rw [isMissing, Nat.pow_add, Nat.add_right_comm, Nat.pow_add _ (_ + 1)]
    exact ⟨Nat.mul_le_mul_right _ low, (Nat.mul_lt_mul_right (by positivity)).mpr high⟩

theorem roundQuotient_cases (value divisor : Nat) :
    roundQuotient value divisor = value / divisor ∨
      roundQuotient value divisor = value / divisor + 1 := by
  unfold roundQuotient
  dsimp only
  split
  · exact .inl rfl
  · split
    · exact .inr rfl
    · omega

/-- Rounding a quotient is exact if and only if nothing is left. -/
theorem roundQuotient_mul_eq_iff (positive : 0 < divisor) :
    roundQuotient value divisor * divisor = value ↔ divisor ∣ value := by
  constructor
  · exact Dvd.intro_left _
  · rintro ⟨quotient, rfl⟩
    simp [roundQuotient, positive, Nat.mul_comm]

/-- The 53 leading bits of an integer after rounding, filled with zeros where it has fewer. -/
def leadingBits (value : Nat) : Nat :=
  roundQuotient (scaleDown value 1 ((value.log2 : Int) - 52)).1
    (scaleDown value 1 ((value.log2 : Int) - 52)).2

theorem leadingBits_bounds (positive : value ≠ 0) :
    exponentWeight ≤ leadingBits value ∧ leadingBits value ≤ 2 * exponentWeight := by
  have bounds := scaleDown_bits positive 52
  have weight : twoPow 52 = exponentWeight := rfl
  have double : twoPow (52 + 1) = 2 * exponentWeight := twoPow_succ 52
  rw [weight, double] at bounds
  have rounded := roundQuotient_cases (scaleDown value 1 ((value.log2 : Int) - 52)).1
    (scaleDown value 1 ((value.log2 : Int) - 52)).2
  unfold leadingBits
  push_cast at bounds
  omega

/-- The leading bits are the integer if and only if the bits that are rounded away are zero. -/
theorem leadingBits_mul_eq_iff (value : Nat) :
    (leadingBits value : ℚ) * 2 ^ ((value.log2 : Int) - 52) = value ↔
      twoPow (value.log2 - 52) ∣ value := by
  unfold leadingBits scaleDown
  by_cases wide : 52 ≤ value.log2
  · have power : ((value.log2 : Int) - 52) = (value.log2 - 52 : Nat) := by omega
    rw [if_pos (by omega), power, Int.toNat_natCast, Nat.one_mul, zpow_natCast]
    rw [← roundQuotient_mul_eq_iff (twoPow_pos _), twoPow_eq]
    norm_cast
  · obtain ⟨missing, isMissing⟩ : ∃ missing : Nat, value.log2 + missing = 52 :=
      ⟨52 - value.log2, by omega⟩
    have power : ((value.log2 : Int) - 52) = -(missing : Int) := by omega
    have none : value.log2 - 52 = 0 := by omega
    have whole : roundQuotient (value * twoPow missing) 1 = value * twoPow missing := by
      have kept := (roundQuotient_mul_eq_iff Nat.one_pos).mpr (Nat.one_dvd (value * twoPow missing))
      rwa [Nat.mul_one] at kept
    rw [if_neg (by omega), power, neg_neg, Int.toNat_natCast, none, whole, twoPow_eq]
    refine iff_of_true ?_ (Nat.one_dvd _)
    push_cast
    rw [zpow_neg, zpow_natCast, mul_assoc, mul_inv_cancel₀ (by positivity), mul_one]

/-- An integer other than zero is rounded to 53 bits. -/
theorem ofQuotient_eq (positive : value ≠ 0) (negative : Bool) :
    ofQuotient negative value 1 =
      ofParts negative (Min.min ((value.log2 + 1022) * exponentWeight + leadingBits value)
        infiniteMagnitude) := by
  have guess : Max.max ((value.log2 : Int) - (Nat.log2 1 : Nat) - 53) (-1074) = (value.log2 : Int) - 53 := by
    have one : Nat.log2 1 = 0 := by decide
    rw [one]
    omega
  have full : 2 * exponentWeight ≤ (scaleDown value 1 ((value.log2 : Int) - 53)).1 /
      (scaleDown value 1 ((value.log2 : Int) - 53)).2 := (scaleDown_bits positive 53).1
  have next : (value.log2 : Int) - 53 + 1 = (value.log2 : Int) - 52 := by omega
  have biased : ((value.log2 : Int) - 52 + 1074).toNat = value.log2 + 1022 := by omega
  unfold ofQuotient
  simp only [guess]
  rw [if_neg positive, if_pos full, next, biased]
  rfl

/-- An integer beyond the range has no 53 leading bits that are all of it: they would carry past its
highest bit. -/
theorem not_holdsInt_of_infinite (positive : value ≠ 0)
    (infinite : infiniteMagnitude ≤ (value.log2 + 1022) * exponentWeight + leadingBits value)
    (small : value.log2 < 1024) : ¬ twoPow (value.log2 - 52) ∣ value := by
  have weight : exponentWeight = 4503599627370496 := by decide
  have limit : infiniteMagnitude = 9218868437227405312 := by decide
  have bounds := leadingBits_bounds positive
  rw [weight] at bounds infinite
  have top : value.log2 = 1023 := by omega
  have carried : leadingBits value = twoPow 53 := by
    have : twoPow 53 = 9007199254740992 := by decide
    omega
  obtain ⟨extra, isExtra⟩ : ∃ extra : Nat, value.log2 = 52 + extra := ⟨value.log2 - 52, by omega⟩
  have power : ((value.log2 : Int) - 52) = extra := by omega
  have below : value < 2 ^ (value.log2 + 1) := Nat.lt_log2_self
  intro divides
  have equal := (leadingBits_mul_eq_iff value).mpr divides
  rw [carried, twoPow_eq, power, zpow_natCast] at equal
  have whole : 2 ^ 53 * 2 ^ extra = value := by exact_mod_cast equal
  rw [isExtra, ← whole, ← Nat.pow_add] at below
  exact absurd below (by rw [Nat.add_right_comm]; exact lt_irrefl _)

/-- A magnitude with the sign of an integer is the integer if it is the magnitude of the integer. -/
theorem signed_eq_iff (value : Int) (magnitude : ℚ) :
    (if decide (value < 0) = true then -1 else 1) * magnitude = value ↔
      magnitude = value.natAbs := by
  by_cases negative : value < 0
  · rw [if_pos (decide_eq_true negative), Nat.cast_natAbs, abs_of_neg negative, Int.cast_neg,
      neg_one_mul, neg_eq_iff_eq_neg]
  · rw [if_neg (by simpa using negative), Nat.cast_natAbs, abs_of_nonneg (by omega), one_mul]

/-- An integer is kept if and only if it has no more than 53 significant bits and is not beyond the
range. -/
theorem isInt_ofInt_iff (value : Int) : (ofInt value).IsInt value ↔ HoldsInt value := by
  rcases eq_or_ne value 0 with rfl | nonzero
  · have none : (ofInt 0).significand = 0 := by decide
    exact iff_of_true ⟨by decide, by simp [toRat, none]⟩ (by decide)
  have positive : value.natAbs ≠ 0 := Int.natAbs_ne_zero.mpr nonzero
  have weight : exponentWeight = 4503599627370496 := by decide
  have limit : infiniteMagnitude = 9218868437227405312 := by decide
  have sign : signWeight = 9223372036854775808 := by decide
  have bounds := leadingBits_bounds positive
  unfold IsInt HoldsInt ofInt
  rw [ofQuotient_eq positive]
  rcases Nat.lt_or_ge ((value.natAbs.log2 + 1022) * exponentWeight + leadingBits value.natAbs)
    infiniteMagnitude with finite | infinite
  · rw [Nat.min_eq_left finite.le, isFinite_ofParts (by omega), decide_eq_true finite,
      toRat_ofParts bounds.1 bounds.2 finite]
    have small : value.natAbs.log2 < 1024 := by
      rw [weight] at bounds finite
      omega
    have power : ((value.natAbs.log2 + 1022 : Nat) : Int) - 1074 = (value.natAbs.log2 : Int) - 52 := by
      omega
    rw [power, ← leadingBits_mul_eq_iff, signed_eq_iff]
    exact ⟨fun isInt => ⟨small, isInt.2⟩, fun holds => ⟨rfl, holds.2⟩⟩
  · rw [Nat.min_eq_right infinite, isFinite_ofParts (by omega)]
    refine iff_of_false (fun isInt => absurd isInt.1 (by simp)) ?_
    rintro ⟨small, divides⟩
    exact not_holdsInt_of_infinite positive infinite small divides

end IndexAlgebra.Binary64
