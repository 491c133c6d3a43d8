/-
This file says what a binary operator makes of the integers in one lane of its operands, on the
integers of arithmetic. A truth value is zero or one, and a quotient or remainder by zero is
nothing.
-/
import IndexAlgebra.Operator

namespace IndexAlgebra

/-- A binary operator on the integers of one lane. -/
def BinaryOp.onLane (op : BinaryOp) (left right : Int) : Option Int :=
  match op with
  | .add => some (left + right)
  | .sub => some (left - right)
  | .mul => some (left * right)
  | .truncDiv => if right = 0 then none else some (left.tdiv right)
  | .truncMod => if right = 0 then none else some (left.tmod right)
  | .floorDiv => if right = 0 then none else some (left.fdiv right)
  | .floorMod => if right = 0 then none else some (left.fmod right)
  | .min => some (Min.min left right)
  | .max => some (Max.max left right)
  | .eq => some (decide (left = right)).toNat
  | .ne => some (decide (left ≠ right)).toNat
  | .lt => some (decide (left < right)).toNat
  | .le => some (decide (left ≤ right)).toNat
  | .gt => some (decide (right < left)).toNat
  | .ge => some (decide (right ≤ left)).toNat
  | .and => some (decide (left ≠ 0 ∧ right ≠ 0)).toNat
  | .or => some (decide (left ≠ 0 ∨ right ≠ 0)).toNat

namespace BinaryOp

variable {op : BinaryOp}

theorem onLane_comm (commutes : op.isCommutative = true) (left right : Int) :
    op.onLane right left = op.onLane left right := by
  cases op <;> simp [BinaryOp.isCommutative] at commutes <;>
    simp only [BinaryOp.onLane, Option.some.injEq]
  · exact Int.add_comm right left
  · exact Int.mul_comm right left
  · exact Int.min_comm right left
  · exact Int.max_comm right left
  · simp only [eq_comm]
  · simp only [ne_comm]
  · simp only [and_comm]
  · simp only [or_comm]

/-! ### Sums and extrema -/

theorem arithmetic_of_isSum (isSum : op = .add ∨ op = .sub) : op.opClass = .arithmetic := by
  rcases isSum with rfl | rfl <;> rfl

theorem arithmetic_of_isExtremum (isExtremum : op = .min ∨ op = .max) :
    op.opClass = .arithmetic := by
  rcases isExtremum with rfl | rfl <;> rfl

theorem isCommutative_of_isExtremum (isExtremum : op = .min ∨ op = .max) :
    op.isCommutative = true := by
  rcases isExtremum with rfl | rfl <;> rfl

theorem isExtremum_dual (isExtremum : op = .min ∨ op = .max) :
    op.dual = .min ∨ op.dual = .max := by
  rcases isExtremum with rfl | rfl
  · exact .inr rfl
  · exact .inl rfl

end BinaryOp

end IndexAlgebra
