/-
This file holds the arithmetic of 64-bit signed words on unbounded integers: which integers
are words, and the operations that answer only when their result is one.
-/

namespace IndexAlgebra

/-! ### Powers of two -/

/-- The power of two with the given exponent. -/
def twoPow (exponent : Nat) : Nat := Nat.pow 2 exponent

@[simp]
theorem twoPow_zero : twoPow 0 = 1 := rfl

theorem twoPow_succ (exponent : Nat) : twoPow (exponent + 1) = 2 * twoPow exponent :=
  Nat.mul_comm _ _

theorem twoPow_pos (exponent : Nat) : 0 < twoPow exponent := by
  induction exponent with
  | zero => decide
  | succ exponent positive =>
    rw [twoPow_succ]
    omega

namespace Word

/-! ### Words -/

/-- The smallest word, `-2^63`. -/
def least : Int := -9223372036854775808

/-- The greatest word, `2^63 - 1`. -/
def greatest : Int := 9223372036854775807

/-- The number of words, `2^64`. -/
def size : Nat := 18446744073709551616

/-- The integer is a 64-bit signed word. -/
def Fits (value : Int) : Prop := least ≤ value ∧ value ≤ greatest

instance (value : Int) : Decidable (Fits value) := by unfold Fits; infer_instance

/-- The integer, if it is a word. -/
def ofInt? (value : Int) : Option Int := if Fits value then some value else none

theorem ofInt?_eq_some_iff {value word : Int} :
    ofInt? value = some word ↔ Fits value ∧ value = word := by
  unfold ofInt?
  split <;> simp_all

/-- The word that differs from the integer by a multiple of the number of words. -/
def wrap (value : Int) : Int := value.bmod size

theorem fits_wrap (value : Int) : Fits (wrap value) := by
  have low := Int.le_bmod (x := value) (m := size) (by decide)
  have high := Int.bmod_lt (x := value) (m := size) (by decide)
  unfold Fits wrap least greatest
  simp only [size] at *
  omega

theorem wrap_of_fits {value : Int} (fits : Fits value) : wrap value = value := by
  unfold Fits least greatest at fits
  unfold wrap
  exact Int.bmod_eq_of_le (by simp only [size]; omega) (by simp only [size]; omega)

/-! ### Checked arithmetic -/

/-- The sum, if it is a word. -/
def add? (left right : Int) : Option Int := ofInt? (left + right)

/-- The difference, if it is a word. -/
def sub? (left right : Int) : Option Int := ofInt? (left - right)

/-- The product, if it is a word. -/
def mul? (left right : Int) : Option Int := ofInt? (left * right)

/-- The opposite, if it is a word. -/
def neg? (value : Int) : Option Int := ofInt? (-value)

/-- The quotient rounded toward zero, if the divisor is not zero and the quotient is a word. -/
def tdiv? (left right : Int) : Option Int :=
  if right = 0 then none else ofInt? (left.tdiv right)

/-- The value is a multiple of a divisor other than zero. -/
def isMultiple (value divisor : Int) : Bool := divisor != 0 && value.tmod divisor == 0

theorem isMultiple_iff {value divisor : Int} :
    isMultiple value divisor = true ↔ divisor ≠ 0 ∧ divisor ∣ value := by
  simp [isMultiple, Int.dvd_iff_tmod_eq_zero]

/-- The greatest common divisor of two words. The divisor `2^63`, which only the smallest word
has, is cut to the greatest word. -/
def gcd (left right : Int) : Int := min (Int.gcd left right) greatest

end Word

end IndexAlgebra
