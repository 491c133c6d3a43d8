/-
This file holds what can be known about the order of two integers, and which comparisons it
decides.
-/
import IndexAlgebra.Operator

namespace IndexAlgebra

/-- What is known about the order of two integers. -/
inductive Relation where
  | less
  | lessOrEqual
  | equal
  | greaterOrEqual
  | greater
  | notEqual
  | unknown
  deriving DecidableEq, Repr

namespace Relation

/-- Every relation, from the smaller to the greater. -/
def all : List Relation :=
  [less, lessOrEqual, equal, greaterOrEqual, greater, notEqual, unknown]

/-- The relation holds of two integers. -/
def Holds : Relation → Int → Int → Prop
  | less, left, right => left < right
  | lessOrEqual, left, right => left ≤ right
  | equal, left, right => left = right
  | greaterOrEqual, left, right => right ≤ left
  | greater, left, right => right < left
  | notEqual, left, right => left ≠ right
  | unknown, _, _ => True

/-- The truth value of a comparison of integers in the relation, if the relation decides it. -/
def decides? (relation : Relation) (op : BinaryOp) : Option Bool :=
  match op, relation with
  | .eq, equal => some true
  | .eq, less | .eq, greater | .eq, notEqual => some false
  | .ne, equal => some false
  | .ne, less | .ne, greater | .ne, notEqual => some true
  | .lt, less => some true
  | .lt, equal | .lt, greaterOrEqual | .lt, greater => some false
  | .le, less | .le, lessOrEqual | .le, equal => some true
  | .le, greater => some false
  | .gt, greater => some true
  | .gt, equal | .gt, lessOrEqual | .gt, less => some false
  | .ge, greater | .ge, greaterOrEqual | .ge, equal => some true
  | .ge, less => some false
  | _, _ => none

/-- The first integer is at most the second. -/
def isLe (relation : Relation) : Bool := relation.decides? .le == some true

/-- The first integer is at least the second. -/
def isGe (relation : Relation) : Bool := relation.decides? .ge == some true

/-- The relation of two integers in the given order. -/
def ofOrdering : Ordering → Relation
  | .lt => less
  | .eq => equal
  | .gt => greater

end Relation

end IndexAlgebra
