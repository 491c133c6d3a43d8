/-
This file holds the expressions of the library: typed trees over variables and constants, with
scalar and vector nodes, bindings and calls. Every node states its own type. The builders of
`IndexAlgebra.Expr.Build` give a node the type that its operands call for, and a tree read from
outside may state another.
-/
import IndexAlgebra.Binary64
import IndexAlgebra.DataType
import IndexAlgebra.Operator

namespace IndexAlgebra

/-- A variable, which is known by its name, its type and its mark together. -/
structure Variable where
  name : String
  dtype : DataType
  /-- The mark of a shape variable, the extent of some dimension, which is never negative. -/
  nonNegative : Bool := false
  deriving DecidableEq, Repr, Inhabited

/-- An expression. The first field of every node is the type of its value. -/
inductive Expr where
  | var (dtype : DataType) (name : Variable)
  /-- An integer constant, of a signed or an unsigned type. -/
  | intConst (dtype : DataType) (value : Int)
  | floatConst (dtype : DataType) (value : Binary64)
  | boolConst (dtype : DataType) (value : Bool)
  /-- The value of the operand converted to the type of the node. -/
  | cast (dtype : DataType) (value : Expr)
  | binary (dtype : DataType) (op : BinaryOp) (lhs rhs : Expr)
  | not (dtype : DataType) (value : Expr)
  /-- A choice between two values, lane by lane. Both values are evaluated. -/
  | select (dtype : DataType) (cond onTrue onFalse : Expr)
  /-- The vector with `base + i * stride` in lane `i`. -/
  | ramp (dtype : DataType) (base stride : Expr) (lanes : Nat)
  /-- The vector with one value in each of its lanes. -/
  | broadcast (dtype : DataType) (value : Expr) (lanes : Nat)
  /-- The vector of the lanes at `indices` of the vectors laid end to end. -/
  | shuffle (dtype : DataType) (vectors : List Expr) (indices : List Nat)
  /-- The body, with the variable standing for the value. -/
  | letIn (dtype : DataType) (name : Variable) (value body : Expr)
  | call (dtype : DataType) (op : CallOp) (args : List Expr)
  deriving Inhabited, Repr

namespace Variable

/-- Variables are ordered by name, then by type, then by mark. -/
def compare (first second : Variable) : Ordering :=
  (Ord.compare first.name second.name).then
    ((DataType.compare first.dtype second.dtype).then
      (Ord.compare first.nonNegative.toNat second.nonNegative.toNat))

/-- The variable as an expression. -/
def expr (name : Variable) : Expr := .var name.dtype name

/-- The name with a numbered suffix. -/
def numbered (name : String) (suffix : Nat) : String := name ++ "_" ++ toString suffix

/-- The same variable under the first name of `name_1`, `name_2` and so on that is not taken.
One of the first `taken.length + 1` names is free. -/
def fresh (old : Variable) (taken : List String) : Variable :=
  let suffix := ((List.range taken.length).find? fun index =>
    !taken.contains (numbered old.name (index + 1))).getD taken.length
  { old with name := numbered old.name (suffix + 1) }

end Variable

namespace Expr

/-! ### Parts of a node -/

/-- The type of the value. -/
def dtype : Expr → DataType
  | var dtype _ | intConst dtype _ | floatConst dtype _ | boolConst dtype _ | cast dtype _
  | binary dtype _ _ _ | not dtype _ | select dtype _ _ _ | ramp dtype _ _ _
  | broadcast dtype _ _ | shuffle dtype _ _ | letIn dtype _ _ _ | call dtype _ _ => dtype

/-- The number of lanes of the value. -/
def lanes (expr : Expr) : Nat := expr.dtype.lanes

/-- The value of an integer constant. -/
def asInt? : Expr → Option Int
  | intConst _ value => some value
  | _ => none

/-- The value of a floating-point constant. -/
def asFloat? : Expr → Option Binary64
  | floatConst _ value => some value
  | _ => none

/-- The value of a truth constant. -/
def asBool? : Expr → Option Bool
  | boolConst _ value => some value
  | _ => none

/-- The variable of a variable node. -/
def asVariable? : Expr → Option Variable
  | var _ name => some name
  | _ => none

/-- The operator and the operands of a binary node. -/
def asBinary? : Expr → Option (BinaryOp × Expr × Expr)
  | binary _ op lhs rhs => some (op, lhs, rhs)
  | _ => none

/-- The operands of a binary node with the given operator. -/
def operands? (expr : Expr) (op : BinaryOp) : Option (Expr × Expr) :=
  match expr with
  | binary _ actual lhs rhs => if actual = op then some (lhs, rhs) else none
  | _ => none

/-- The node is an integer, floating-point or truth constant. -/
def isConst : Expr → Bool
  | intConst .. | floatConst .. | boolConst .. => true
  | _ => false

/-- The node is the integer constant with the given value. -/
def isInt (expr : Expr) (value : Int) : Bool := expr.asInt? == some value

/-! ### Children -/

/-- The direct operands of a node, from left to right. The variable that a binding introduces
is not one of them. -/
def children : Expr → List Expr
  | var .. | intConst .. | floatConst .. | boolConst .. => []
  | cast _ value | not _ value | broadcast _ value _ => [value]
  | binary _ _ lhs rhs => [lhs, rhs]
  | select _ cond onTrue onFalse => [cond, onTrue, onFalse]
  | ramp _ base stride _ => [base, stride]
  | shuffle _ vectors _ => vectors
  | letIn _ _ value body => [value, body]
  | call _ _ args => args

/-- The node with other operands in the place of its own, which have to be as many. -/
def withChildren : Expr → List Expr → Expr
  | cast dtype _, [value] => cast dtype value
  | not dtype _, [value] => not dtype value
  | broadcast dtype _ lanes, [value] => broadcast dtype value lanes
  | binary dtype op _ _, [lhs, rhs] => binary dtype op lhs rhs
  | select dtype _ _ _, [cond, onTrue, onFalse] => select dtype cond onTrue onFalse
  | ramp dtype _ _ lanes, [base, stride] => ramp dtype base stride lanes
  | shuffle dtype _ indices, vectors => shuffle dtype vectors indices
  | letIn dtype name _ _, [value, body] => letIn dtype name value body
  | call dtype op _, args => call dtype op args
  | expr, _ => expr

@[simp]
theorem withChildren_children (expr : Expr) : expr.withChildren expr.children = expr := by
  cases expr <;> rfl

@[simp]
theorem dtype_withChildren (expr : Expr) (children : List Expr) :
    (expr.withChildren children).dtype = expr.dtype := by
  unfold withChildren
  split <;> rfl

/-- The node with a function applied to each operand. -/
def mapChildren (f : Expr → Expr) (expr : Expr) : Expr :=
  expr.withChildren (expr.children.map f)

end Expr

end IndexAlgebra
