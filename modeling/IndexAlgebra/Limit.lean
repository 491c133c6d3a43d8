/-
This file holds the ends of constant bounds: integers and the two infinities, with their order
and their arithmetic. An end that reaches `2^63 - 1` or its opposite counts as infinite, so
that the arithmetic of ends never overflows.
-/
import IndexAlgebra.Word

namespace IndexAlgebra

/-- One end of a bound. -/
inductive Limit where
  | negInf
  | finite (value : Int)
  | posInf
  deriving DecidableEq, Repr, Inhabited

namespace Limit

/-- An integer as an end; one at or beyond `2^63 - 1` in magnitude is infinite. -/
def ofInt (value : Int) : Limit :=
  if Word.greatest ≤ value then posInf
  else if value ≤ -Word.greatest then negInf
  else finite value

/-- The end as an integer, where the infinities are `2^63 - 1` and its opposite. -/
def toInt : Limit → Int
  | negInf => -Word.greatest
  | finite value => value
  | posInf => Word.greatest

def finite? : Limit → Option Int
  | finite value => some value
  | _ => none

/-! ### Order -/

def le : Limit → Limit → Bool
  | negInf, _ => true
  | _, posInf => true
  | finite left, finite right => decide (left ≤ right)
  | _, _ => false

instance : LE Limit := ⟨fun left right => le left right = true⟩

instance (left right : Limit) : Decidable (left ≤ right) :=
  inferInstanceAs (Decidable (le left right = true))

@[simp]
theorem negInf_le (limit : Limit) : negInf ≤ limit := rfl

@[simp]
theorem le_posInf (limit : Limit) : limit ≤ posInf := by cases limit <;> rfl

@[simp]
theorem finite_le_finite {left right : Int} : finite left ≤ finite right ↔ left ≤ right :=
  decide_eq_true_iff

@[simp]
theorem not_finite_le_negInf (value : Int) : ¬finite value ≤ negInf := Bool.false_ne_true

@[simp]
theorem not_posInf_le_finite (value : Int) : ¬posInf ≤ finite value := Bool.false_ne_true

@[simp]
theorem not_posInf_le_negInf : ¬posInf ≤ negInf := Bool.false_ne_true

theorem le_refl (limit : Limit) : limit ≤ limit := by cases limit <;> simp

theorem le_total (first second : Limit) : first ≤ second ∨ second ≤ first := by
  cases first <;> cases second <;> simp [Int.le_total]

theorem le_trans {first second third : Limit} (low : first ≤ second) (high : second ≤ third) :
    first ≤ third := by
  cases first <;> cases second <;> cases third <;> simp_all
  exact Int.le_trans low high

theorem le_antisymm {first second : Limit} (low : first ≤ second) (high : second ≤ first) :
    first = second := by
  cases first <;> cases second <;> simp_all
  exact Int.le_antisymm low high

instance : LT Limit := ⟨fun left right => ¬right ≤ left⟩

instance (left right : Limit) : Decidable (left < right) :=
  inferInstanceAs (Decidable (¬right ≤ left))

instance : Min Limit := ⟨fun left right => if left ≤ right then left else right⟩

instance : Max Limit := ⟨fun left right => if left ≤ right then right else left⟩

theorem min_def (first second : Limit) :
    min first second = if first ≤ second then first else second := rfl

theorem max_def (first second : Limit) :
    max first second = if first ≤ second then second else first := rfl

theorem max_le_iff {first second limit : Limit} :
    max first second ≤ limit ↔ first ≤ limit ∧ second ≤ limit := by
  rw [max_def]
  split
  next ordered => exact ⟨fun bounded => ⟨le_trans ordered bounded, bounded⟩, And.right⟩
  next unordered =>
    have ordered := (le_total first second).resolve_left unordered
    exact ⟨fun bounded => ⟨bounded, le_trans ordered bounded⟩, And.left⟩

theorem le_min_iff {limit first second : Limit} :
    limit ≤ min first second ↔ limit ≤ first ∧ limit ≤ second := by
  rw [min_def]
  split
  next ordered => exact ⟨fun bounded => ⟨bounded, le_trans bounded ordered⟩, And.left⟩
  next unordered =>
    have ordered := (le_total first second).resolve_left unordered
    exact ⟨fun bounded => ⟨le_trans bounded ordered, bounded⟩, And.right⟩

theorem min_le_left (first second : Limit) : min first second ≤ first :=
  (le_min_iff.mp (le_refl _)).1

theorem min_le_right (first second : Limit) : min first second ≤ second :=
  (le_min_iff.mp (le_refl _)).2

theorem le_max_left (first second : Limit) : first ≤ max first second :=
  (max_le_iff.mp (le_refl _)).1

theorem le_max_right (first second : Limit) : second ≤ max first second :=
  (max_le_iff.mp (le_refl _)).2

/-! ### Arithmetic -/

/-- The sign of an end: one, zero or minus one. -/
def sign : Limit → Int
  | negInf => -1
  | finite value => value.sign
  | posInf => 1

/-- The infinity with the given sign. -/
def infinite (sign : Int) : Limit := if sign < 0 then negInf else posInf

def neg : Limit → Limit
  | negInf => posInf
  | finite value => finite (-value)
  | posInf => negInf

/-- The sum of two ends. Opposite infinities have none. -/
def add? : Limit → Limit → Option Limit
  | posInf, negInf | negInf, posInf => none
  | posInf, _ | _, posInf => some posInf
  | negInf, _ | _, negInf => some negInf
  | finite left, finite right => some (ofInt (left + right))

/-- The product of two ends, where zero times an infinity is zero. -/
def mul : Limit → Limit → Limit
  | finite left, finite right => ofInt (left * right)
  | left, right =>
    if left = finite 0 ∨ right = finite 0 then finite 0 else infinite (left.sign * right.sign)

/-- The quotient of two integers, rounded down or toward zero. -/
def divideInts (floor : Bool) (left right : Int) : Int :=
  if floor then left.fdiv right else left.tdiv right

/-- The quotient of two ends by a divisor other than zero. A finite end divided by an infinity
is zero, or minus one when it is rounded down from below zero. -/
def div (floor : Bool) : Limit → Limit → Limit
  | finite left, finite right => ofInt (divideInts floor left right)
  | finite left, divisor =>
    if floor && left != 0 && left.sign != divisor.sign then finite (-1) else finite 0
  | left, right => infinite (left.sign * right.sign)

def text : Limit → String
  | negInf => "-inf"
  | finite value => toString value
  | posInf => "+inf"

end Limit

end IndexAlgebra
