/-
This file decides the equality of expressions: two expressions are equal when they have the
same type, the same kind of node and equal operands.
-/
import IndexAlgebra.Expr

namespace IndexAlgebra.Expr

mutual

/-- The two expressions are the same tree. -/
def same : Expr → Expr → Bool
  | var dtype name, var dtype' name' => dtype == dtype' && name == name'
  | intConst dtype value, intConst dtype' value' => dtype == dtype' && value == value'
  | floatConst dtype value, floatConst dtype' value' => dtype == dtype' && value == value'
  | boolConst dtype value, boolConst dtype' value' => dtype == dtype' && value == value'
  | cast dtype value, cast dtype' value' => dtype == dtype' && same value value'
  | binary dtype op lhs rhs, binary dtype' op' lhs' rhs' =>
    dtype == dtype' && op == op' && same lhs lhs' && same rhs rhs'
  | not dtype value, not dtype' value' => dtype == dtype' && same value value'
  | select dtype cond onTrue onFalse, select dtype' cond' onTrue' onFalse' =>
    dtype == dtype' && same cond cond' && same onTrue onTrue' && same onFalse onFalse'
  | ramp dtype base stride lanes, ramp dtype' base' stride' lanes' =>
    dtype == dtype' && same base base' && same stride stride' && lanes == lanes'
  | broadcast dtype value lanes, broadcast dtype' value' lanes' =>
    dtype == dtype' && same value value' && lanes == lanes'
  | shuffle dtype vectors indices, shuffle dtype' vectors' indices' =>
    dtype == dtype' && sameList vectors vectors' && indices == indices'
  | letIn dtype name value body, letIn dtype' name' value' body' =>
    dtype == dtype' && name == name' && same value value' && same body body'
  | call dtype op args, call dtype' op' args' =>
    dtype == dtype' && op == op' && sameList args args'
  | _, _ => false

/-- The two lists hold the same trees in the same order. -/
def sameList : List Expr → List Expr → Bool
  | [], [] => true
  | first :: rest, first' :: rest' => same first first' && sameList rest rest'
  | _, _ => false

end

mutual

theorem same_iff_eq : ∀ first second : Expr, same first second = true ↔ first = second
  | var dtype name, second => by cases second <;> simp [same]
  | intConst dtype value, second => by cases second <;> simp [same]
  | floatConst dtype value, second => by cases second <;> simp [same]
  | boolConst dtype value, second => by cases second <;> simp [same]
  | cast dtype value, second => by cases second <;> simp [same, same_iff_eq value]
  | binary dtype op lhs rhs, second => by
    cases second <;> simp [same, same_iff_eq lhs, same_iff_eq rhs, and_assoc]
  | not dtype value, second => by cases second <;> simp [same, same_iff_eq value]
  | select dtype cond onTrue onFalse, second => by
    cases second <;>
      simp [same, same_iff_eq cond, same_iff_eq onTrue, same_iff_eq onFalse, and_assoc]
  | ramp dtype base stride lanes, second => by
    cases second <;> simp [same, same_iff_eq base, same_iff_eq stride, and_assoc]
  | broadcast dtype value lanes, second => by
    cases second <;> simp [same, same_iff_eq value, and_assoc]
  | shuffle dtype vectors indices, second => by
    cases second <;> simp [same, sameList_iff_eq vectors, and_assoc]
  | letIn dtype name value body, second => by
    cases second <;> simp [same, same_iff_eq value, same_iff_eq body, and_assoc]
  | call dtype op args, second => by
    cases second <;> simp [same, sameList_iff_eq args, and_assoc]

theorem sameList_iff_eq : ∀ first second : List Expr, sameList first second = true ↔ first = second
  | [], second => by cases second <;> simp [sameList]
  | head :: rest, second => by
    cases second <;> simp [sameList, same_iff_eq head, sameList_iff_eq rest]

end

instance : DecidableEq Expr := fun first second =>
  decidable_of_iff (same first second = true) (same_iff_eq first second)

end IndexAlgebra.Expr
