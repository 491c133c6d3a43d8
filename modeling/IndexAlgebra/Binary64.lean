/-
This file holds the floating-point constants of expressions: numbers of 64 bits, kept as their
bits. Every operation is computed exactly on integers and then rounded to the nearest number,
so that no operation depends on the floating-point unit of a machine.
-/
import IndexAlgebra.Word

namespace IndexAlgebra

/-- A floating-point number of 64 bits: a sign, eleven bits of exponent and 52 bits of
fraction. Two numbers are equal when their bits are. -/
structure Binary64 where
  bits : UInt64
  deriving DecidableEq, Repr, Inhabited

namespace Binary64

/-! ### The parts of a number -/

/-- The weight of the sign bit. -/
def signWeight : Nat := twoPow 63

/-- The weight of the lowest bit of the exponent. -/
def exponentWeight : Nat := twoPow 52

/-- The magnitude of the infinities. Greater magnitudes are not numbers. -/
def infiniteMagnitude : Nat := 2047 * exponentWeight

/-- The number with the given sign and magnitude, where the magnitude is every bit but the
sign. -/
def ofParts (negative : Bool) (magnitude : Nat) : Binary64 :=
  ⟨UInt64.ofNat ((if negative then signWeight else 0) + magnitude)⟩

/-- The sign bit is set. -/
def isNegative (number : Binary64) : Bool := decide (signWeight ≤ number.bits.toNat)

/-- Every bit but the sign. -/
def magnitude (number : Binary64) : Nat := number.bits.toNat % signWeight

def isNaN (number : Binary64) : Bool := decide (infiniteMagnitude < number.magnitude)

def isInfinite (number : Binary64) : Bool := number.magnitude == infiniteMagnitude

def isFinite (number : Binary64) : Bool := decide (number.magnitude < infiniteMagnitude)

/-- The number is one of the two zeros. -/
def isZero (number : Binary64) : Bool := number.magnitude == 0

/-- A finite number is its `significand` times two to the power `exponent`, up to the sign. -/
def significand (number : Binary64) : Nat :=
  if number.magnitude < exponentWeight then number.magnitude
  else exponentWeight + number.magnitude % exponentWeight

@[inherit_doc significand]
def exponent (number : Binary64) : Int :=
  (Nat.max (number.magnitude / exponentWeight) 1 : Nat) - (1075 : Int)

/-- The infinity of the given sign. -/
def infinity (negative : Bool) : Binary64 := ofParts negative infiniteMagnitude

/-- The zero of the given sign. -/
def zero (negative : Bool) : Binary64 := ofParts negative 0

/-- The value that a written `NaN` stands for. -/
def nan : Binary64 := ofParts false (infiniteMagnitude + twoPow 51)

/-- The value of an operation that has no result, such as the difference of two equal
infinities. -/
def invalid : Binary64 := ofParts true (infiniteMagnitude + twoPow 51)

/-- The same value, marked as one that raises no signal. -/
def quiet (number : Binary64) : Binary64 := ⟨number.bits ||| UInt64.ofNat (twoPow 51)⟩

/-- The same number with the opposite sign. -/
def neg (number : Binary64) : Binary64 := ofParts (!number.isNegative) number.magnitude

/-! ### Rounding -/

/-- The quotient rounded to the nearest integer, and to the even one of two. -/
def roundQuotient (numerator denominator : Nat) : Nat :=
  let quotient := numerator / denominator
  let rest := 2 * (numerator % denominator)
  if rest < denominator then quotient
  else if denominator < rest then quotient + 1
  else quotient + quotient % 2

/-- A quotient as one of integers after a division by a power of two. -/
def scaleDown (numerator denominator : Nat) (power : Int) : Nat × Nat :=
  if 0 ≤ power then (numerator, denominator * twoPow power.toNat)
  else (numerator * twoPow (-power).toNat, denominator)

/-- The number nearest to a quotient of integers, and of two the one with an even last bit. A
quotient beyond the range rounds to an infinity. -/
def ofQuotient (negative : Bool) (numerator denominator : Nat) : Binary64 :=
  if numerator = 0 then zero negative
  else
    let guess := max ((numerator.log2 : Int) - denominator.log2 - 53) (-1074)
    let first := scaleDown numerator denominator guess
    let power := if 2 * exponentWeight ≤ first.1 / first.2 then guess + 1 else guess
    let scaled := scaleDown numerator denominator power
    let magnitude := (power + 1074).toNat * exponentWeight + roundQuotient scaled.1 scaled.2
    ofParts negative (min magnitude infiniteMagnitude)

/-- The number nearest to an integer. -/
def ofInt (value : Int) : Binary64 := ofQuotient (decide (value < 0)) value.natAbs 1

/-- The magnitude of a finite number as a quotient of integers. -/
def toQuotient (number : Binary64) : Nat × Nat :=
  scaleDown number.significand 1 (-number.exponent)

/-! ### Integers near a number -/

/-- The greatest integer that is not above the number, if the number is finite. -/
def floor? (number : Binary64) : Option Int :=
  if number.isFinite then
    let quotient := number.toQuotient
    let signed : Int := if number.isNegative then -quotient.1 else quotient.1
    some (signed.fdiv quotient.2)
  else none

/-- The least integer that is not below the number, if the number is finite. -/
def ceil? (number : Binary64) : Option Int := (floor? number.neg).map (fun value => -value)

/-- The integer between zero and the number that is nearest to the number, if it is finite. -/
def truncate? (number : Binary64) : Option Int :=
  if number.isNegative then number.ceil? else number.floor?

/-- The number rounded down to an integer. A zero, an infinity and what is not a number stay
as they are. -/
def floor (number : Binary64) : Binary64 :=
  match number.floor? with
  | none => if number.isNaN then number.quiet else number
  | some value => if value = 0 then zero number.isNegative else ofInt value

/-! ### Arithmetic -/

/-- An operation on two numbers. An operand that is not a number is the result, and the left
one of two. -/
def combine (operation : Binary64 → Binary64 → Binary64) (left right : Binary64) : Binary64 :=
  if left.isNaN then left.quiet
  else if right.isNaN then right.quiet
  else operation left right

/-- The sum. Opposite infinities have none, and opposite operands give the positive zero. -/
def add : Binary64 → Binary64 → Binary64 :=
  combine fun left right =>
    if left.isInfinite then
      if right.isInfinite && left.isNegative != right.isNegative then invalid else left
    else if right.isInfinite then right
    else if left.isZero && right.isZero then zero (left.isNegative && right.isNegative)
    else
      let first := left.toQuotient
      let second := right.toQuotient
      let signed (number : Binary64) (numerator : Nat) : Int :=
        if number.isNegative then -numerator else numerator
      let numerator := signed left first.1 * second.2 + signed right second.1 * first.2
      ofQuotient (decide (numerator < 0)) numerator.natAbs (first.2 * second.2)

/-- The difference. -/
def sub : Binary64 → Binary64 → Binary64 := combine fun left right => add left right.neg

/-- The product. Zero times infinity has none. -/
def mul : Binary64 → Binary64 → Binary64 :=
  combine fun left right =>
    let negative := left.isNegative != right.isNegative
    if left.isInfinite || right.isInfinite then
      if left.isZero || right.isZero then invalid else infinity negative
    else
      let first := left.toQuotient
      let second := right.toQuotient
      ofQuotient negative (first.1 * second.1) (first.2 * second.2)

/-- The quotient. Zero by zero and infinity by infinity have none; any other number divided by
zero is infinite. -/
def div : Binary64 → Binary64 → Binary64 :=
  combine fun left right =>
    let negative := left.isNegative != right.isNegative
    if left.isInfinite then
      if right.isInfinite then invalid else infinity negative
    else if right.isInfinite then zero negative
    else if right.isZero then
      if left.isZero then invalid else infinity negative
    else
      let first := left.toQuotient
      let second := right.toQuotient
      ofQuotient negative (first.1 * second.2) (first.2 * second.1)

/-! ### Comparison -/

/-- Numbers other than `NaN` compare as these integers do. The two zeros share one. -/
def comparisonKey (number : Binary64) : Int :=
  if number.isNegative then -number.magnitude else number.magnitude

/-- The comparison of two numbers; every comparison with what is not a number fails. -/
def holds (test : Int → Int → Bool) (left right : Binary64) : Bool :=
  !left.isNaN && !right.isNaN && test left.comparisonKey right.comparisonKey

def eq (left right : Binary64) : Bool := holds (fun first second => decide (first = second)) left right

def lt (left right : Binary64) : Bool := holds (fun first second => decide (first < second)) left right

def le (left right : Binary64) : Bool := holds (fun first second => decide (first ≤ second)) left right

/-- The smaller number, and the right one of the two zeros. An operand that is not a number is
passed over. -/
def min (left right : Binary64) : Binary64 :=
  if left.isNaN || le right left then right else left

/-- The greater number, and the right one of the two zeros. An operand that is not a number is
passed over. -/
def max (left right : Binary64) : Binary64 :=
  if left.isNaN || le left right then right else left

/-! ### Total order -/

/-- The order of all bit patterns: negative numbers before positive ones, the negative zero
before the positive one, and what is not a number beyond the infinity of its sign. -/
def orderKey (number : Binary64) : Int :=
  if number.isNegative then -(number.magnitude : Int) - 1 else number.magnitude

def compare (left right : Binary64) : Ordering := Ord.compare left.orderKey right.orderKey

end Binary64

end IndexAlgebra
