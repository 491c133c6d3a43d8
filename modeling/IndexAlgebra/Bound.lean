/-
This file holds constant bounds: closed intervals of integers whose ends may be infinite. An
operation on bounds gives a bound around its results on their values.
-/
import IndexAlgebra.DataType
import IndexAlgebra.Limit

namespace IndexAlgebra

/-- The integers between two ends, both included. A bound whose lower end is above its upper
end holds no integer. -/
structure Bound where
  lower : Limit
  upper : Limit
  deriving DecidableEq, Repr, Inhabited

namespace Bound

/-! ### Bounds -/

/-- The integers from one value to another. -/
def ofInts (least greatest : Int) : Bound := ⟨.ofInt least, .ofInt greatest⟩

/-- Every integer. -/
def everything : Bound := ⟨.negInf, .posInf⟩

/-- A single integer. -/
def point (value : Int) : Bound := ofInts value value

/-- The integers that are not negative. -/
def nonNegative : Bound := ⟨.finite 0, .posInf⟩

/-- The bound of a truth value. -/
def truth : Bound := ofInts 0 1

/-- The integers that one lane of a type can hold. A floating-point type has no bound. -/
def ofType (dtype : DataType) : Bound :=
  match dtype.minInt?, dtype.maxInt? with
  | some least, some greatest => ofInts least greatest
  | _, _ => everything

/-- The only integer of a bound that has exactly one. -/
def asPoint? (bound : Bound) : Option Int :=
  match bound.lower, bound.upper with
  | .finite least, .finite greatest => if least = greatest then some least else none
  | _, _ => none

/-! ### Tests -/

def isEverything (bound : Bound) : Bool := decide (bound = everything)

/-- Every value is at least zero. -/
def isNonNegative (bound : Bound) : Bool := decide (Limit.finite 0 ≤ bound.lower)

/-- Every value is above zero. -/
def isPositive (bound : Bound) : Bool := decide (Limit.finite 0 < bound.lower)

/-- Every value is at most zero. -/
def isNonPositive (bound : Bound) : Bool := decide (bound.upper ≤ Limit.finite 0)

/-- Every value is below zero. -/
def isNegative (bound : Bound) : Bool := decide (bound.upper < Limit.finite 0)

def contains (bound : Bound) (value : Int) : Bool :=
  decide (bound.lower ≤ Limit.finite value ∧ Limit.finite value ≤ bound.upper)

theorem contains_iff {bound : Bound} {value : Int} :
    bound.contains value = true ↔
      bound.lower ≤ Limit.finite value ∧ Limit.finite value ≤ bound.upper :=
  decide_eq_true_iff

@[simp]
theorem contains_everything (value : Int) : everything.contains value = true := rfl

/-- The ends of the bound lie within those of the other. -/
def isSubsetOf (bound other : Bound) : Bool :=
  decide (other.lower ≤ bound.lower ∧ bound.upper ≤ other.upper)

theorem contains_of_isSubsetOf {bound other : Bound} {value : Int}
    (subset : bound.isSubsetOf other = true) (member : bound.contains value = true) :
    other.contains value = true := by
  have ends := decide_eq_true_iff.mp subset
  have between := contains_iff.mp member
  exact contains_iff.mpr
    ⟨Limit.le_trans ends.1 between.1, Limit.le_trans between.2 ends.2⟩

/-- One lane of the type can hold every value. -/
def fits (bound : Bound) (dtype : DataType) : Bool := bound.isSubsetOf (ofType dtype)

/-- Bounds are ordered by inclusion. -/
def compare? (bound other : Bound) : Option Ordering :=
  match bound.isSubsetOf other, other.isSubsetOf bound with
  | true, true => some .eq
  | true, false => some .lt
  | false, true => some .gt
  | false, false => none

/-! ### Lattice -/

/-- The smallest bound around both. -/
def union (bound other : Bound) : Bound :=
  ⟨min bound.lower other.lower, max bound.upper other.upper⟩

theorem contains_union_left {bound other : Bound} {value : Int}
    (member : bound.contains value = true) : (bound.union other).contains value = true := by
  have between := contains_iff.mp member
  exact contains_iff.mpr
    ⟨Limit.le_trans (Limit.min_le_left _ _) between.1,
      Limit.le_trans between.2 (Limit.le_max_left _ _)⟩

theorem contains_union_right {bound other : Bound} {value : Int}
    (member : other.contains value = true) : (bound.union other).contains value = true := by
  have between := contains_iff.mp member
  exact contains_iff.mpr
    ⟨Limit.le_trans (Limit.min_le_right _ _) between.1,
      Limit.le_trans between.2 (Limit.le_max_right _ _)⟩

/-- The values in both bounds. -/
def intersect (bound other : Bound) : Bound :=
  ⟨max bound.lower other.lower, min bound.upper other.upper⟩

theorem contains_intersect {bound other : Bound} {value : Int} :
    (bound.intersect other).contains value = true ↔
      bound.contains value = true ∧ other.contains value = true := by
  simp only [contains_iff, intersect, Limit.max_le_iff, Limit.le_min_iff]
  exact and_and_and_comm

/-! ### Arithmetic -/

/-- The smallest bound around some ends. -/
def around (first : Limit) (rest : List Limit) : Bound :=
  ⟨rest.foldl min first, rest.foldl max first⟩

/-- The smallest bound around an operation on every pair of ends. -/
def corners (operation : Limit → Limit → Limit) (left right : Bound) : Bound :=
  around (operation left.lower right.lower)
    [operation left.lower right.upper, operation left.upper right.lower,
      operation left.upper right.upper]

def add (left right : Bound) : Bound :=
  ⟨(left.lower.add? right.lower).getD .negInf, (left.upper.add? right.upper).getD .posInf⟩

def neg (bound : Bound) : Bound := ⟨bound.upper.neg, bound.lower.neg⟩

def sub (left right : Bound) : Bound := left.add right.neg

def mul (left right : Bound) : Bound := corners Limit.mul left right

/-- The divisor has one sign and is not zero. -/
def isDivisor (bound : Bound) : Bool := bound.isPositive || bound.isNegative

/-- The quotient, rounded down or toward zero, if the divisor cannot be zero. -/
def div? (floor : Bool) (left right : Bound) : Option Bound :=
  if right.isDivisor then some (corners (Limit.div floor) left right) else none

/-- The remainder of the quotient rounded toward zero, if the divisor cannot be zero. It is
smaller in magnitude than the divisor and has the sign of the dividend. -/
def truncMod? (left right : Bound) : Option Bound :=
  if right.isDivisor then
    let cap := ((max right.lower.neg right.upper).add? (.finite (-1))).getD .posInf
    some
      ⟨if left.isNonNegative then .finite 0 else max left.lower cap.neg,
        if left.isNonPositive then .finite 0 else min left.upper cap⟩
  else none

/-- The remainder of the quotient rounded down, if the divisor cannot be zero. It is smaller in
magnitude than the divisor and has its sign. -/
def floorMod? (left right : Bound) : Option Bound :=
  if right.isPositive then
    let cap := (right.upper.add? (.finite (-1))).getD .posInf
    some ⟨.finite 0, if left.isNonNegative then min left.upper cap else cap⟩
  else if right.isNegative then
    let cap := (right.lower.add? (.finite 1)).getD .negInf
    some ⟨if left.isNonPositive then max left.lower cap else cap, .finite 0⟩
  else none

/-- The bound of the smaller of two values. -/
def minimum (left right : Bound) : Bound :=
  ⟨min left.lower right.lower, min left.upper right.upper⟩

/-- The bound of the greater of two values. -/
def maximum (left right : Bound) : Bound :=
  ⟨max left.lower right.lower, max left.upper right.upper⟩

/-- The number of bits to shift by for an end of the amount. From 63 on every bit of a word is
shifted out, and the amount is read in its lowest six bits. -/
def shiftAmount : Limit → Nat
  | .finite value => ((min value 63).emod 64).toNat
  | _ => 63

/-- An end shifted right, with the sign kept. -/
def shiftEnd (value amount : Limit) : Limit :=
  match value with
  | .finite value => .finite (value.fdiv (twoPow (shiftAmount amount)))
  | infinite => infinite

/-- The value shifted right by an amount, if the amount cannot be negative. -/
def shiftRight? (value amount : Bound) : Option Bound :=
  if amount.isNonNegative then some (corners shiftEnd value amount) else none

/-- The value shifted left by an amount, if the amount is from 0 to 62: the product with a
power of two. -/
def shiftLeft? (value amount : Bound) : Option Bound := do
  let least ← amount.lower.finite?
  let greatest ← amount.upper.finite?
  if least < 0 ∨ 62 < greatest then none
  else
    let power (amount : Int) : Int := Word.wrap (twoPow (amount.emod 64).toNat)
    some (value.mul (ofInts (power least) (power greatest)))

def text (bound : Bound) : String := "[" ++ bound.lower.text ++ ", " ++ bound.upper.text ++ "]"

instance : ToString Bound := ⟨text⟩

end Bound

end IndexAlgebra
