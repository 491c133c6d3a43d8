/-
This file holds the order of expressions. It has no meaning in arithmetic: it puts the terms
of a sum into one order, and equality is the only relation it respects. Nodes are ordered by
kind, then by their parts from left to right, and by their type last.
-/
import IndexAlgebra.Expr

namespace IndexAlgebra.Expr

/-- The position of the kind of a node in the order. -/
def rank : Expr → Nat
  | var .. => 0
  | intConst .. => 1
  | floatConst .. => 2
  | boolConst .. => 3
  | cast .. => 4
  | binary .. => 5
  | not .. => 6
  | select .. => 7
  | ramp .. => 8
  | broadcast .. => 9
  | shuffle .. => 10
  | letIn .. => 11
  | call .. => 12

/-- The order of two lists of numbers, letter by letter, with the shorter one first. -/
def compareIndices : List Nat → List Nat → Ordering
  | [], [] => .eq
  | [], _ :: _ => .lt
  | _ :: _, [] => .gt
  | first :: rest, first' :: rest' => (Ord.compare first first').then (compareIndices rest rest')

mutual

/-- The order of two expressions. -/
def compare : Expr → Expr → Ordering
  | var dtype name, var dtype' name' =>
    (Variable.compare name name').then (DataType.compare dtype dtype')
  | intConst dtype value, intConst dtype' value' =>
    (Ord.compare value value').then (DataType.compare dtype dtype')
  | floatConst dtype value, floatConst dtype' value' =>
    (Binary64.compare value value').then (DataType.compare dtype dtype')
  | boolConst dtype value, boolConst dtype' value' =>
    (Ord.compare value.toNat value'.toNat).then (DataType.compare dtype dtype')
  | cast dtype value, cast dtype' value' =>
    (compare value value').then (DataType.compare dtype dtype')
  | binary dtype op lhs rhs, binary dtype' op' lhs' rhs' =>
    (Ord.compare op.rank op'.rank).then
      ((compare lhs lhs').then ((compare rhs rhs').then (DataType.compare dtype dtype')))
  | not dtype value, not dtype' value' =>
    (compare value value').then (DataType.compare dtype dtype')
  | select dtype cond onTrue onFalse, select dtype' cond' onTrue' onFalse' =>
    (compare cond cond').then ((compare onTrue onTrue').then
      ((compare onFalse onFalse').then (DataType.compare dtype dtype')))
  | ramp dtype base stride lanes, ramp dtype' base' stride' lanes' =>
    (compare base base').then ((compare stride stride').then
      ((Ord.compare lanes lanes').then (DataType.compare dtype dtype')))
  | broadcast dtype value lanes, broadcast dtype' value' lanes' =>
    (compare value value').then
      ((Ord.compare lanes lanes').then (DataType.compare dtype dtype'))
  | shuffle dtype vectors indices, shuffle dtype' vectors' indices' =>
    (compareList vectors vectors').then
      ((compareIndices indices indices').then (DataType.compare dtype dtype'))
  | letIn dtype name value body, letIn dtype' name' value' body' =>
    (Variable.compare name name').then ((compare value value').then
      ((compare body body').then (DataType.compare dtype dtype')))
  | call dtype op args, call dtype' op' args' =>
    (CallOp.compare op op').then
      ((compareList args args').then (DataType.compare dtype dtype'))
  | first, second => Ord.compare first.rank second.rank

/-- The order of two lists of expressions, item by item, with the shorter one first. -/
def compareList : List Expr → List Expr → Ordering
  | [], [] => .eq
  | [], _ :: _ => .lt
  | _ :: _, [] => .gt
  | first :: rest, first' :: rest' => (compare first first').then (compareList rest rest')

end

instance : Ord Expr := ⟨compare⟩

/-- The expressions in order, equal ones in the order they came in. -/
def sort (exprs : List Expr) : List Expr :=
  exprs.mergeSort fun first second => compare first second != .gt

end IndexAlgebra.Expr
