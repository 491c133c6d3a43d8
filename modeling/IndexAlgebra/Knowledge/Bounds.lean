/-
This file infers the constant bound of an expression. The bound of a node follows from the
bounds of its operands, and what is known about the node itself narrows it further. A quotient
or remainder whose divisor may be zero is only known to lie in the range of its type.
-/
import IndexAlgebra.Knowledge

namespace IndexAlgebra

namespace Bound

/-! ### The bound of a node from those of its operands -/

/-- The values that a variable can take by its type and mark. -/
def ofVariable (name : Variable) : Bound :=
  if name.nonNegative then (ofType name.dtype).intersect nonNegative else ofType name.dtype

/-- The integers around a floating-point number. -/
def ofFloat (value : Binary64) : Bound :=
  match value.floor?, value.ceil? with
  | some least, some greatest => ofInts least greatest
  | _, _ => everything

/-- The converted value. A truth value is one exactly when the operand is not zero; an integer
that the type cannot hold wraps around to any integer of the type. -/
def ofCast (dtype : DataType) (operand : Bound) : Bound :=
  if dtype.isBool then
    if !operand.contains 0 then point 1
    else if operand.asPoint? = some 0 then point 0
    else truth
  else if dtype.isFloat || operand.fits dtype then operand
  else ofType dtype

/-- The value of a binary node. -/
def ofBinary (dtype : DataType) (op : BinaryOp) (left right : Bound) : Bound :=
  match op with
  | .add => left.add right
  | .sub => left.sub right
  | .mul => left.mul right
  | .truncDiv => (left.div? false right).getD (ofType dtype)
  | .floorDiv => (left.div? true right).getD (ofType dtype)
  | .truncMod => (left.truncMod? right).getD (ofType dtype)
  | .floorMod => (left.floorMod? right).getD (ofType dtype)
  | .min => left.minimum right
  | .max => left.maximum right
  | .eq | .ne | .lt | .le | .gt | .ge | .and | .or => truth

/-- The bits that two values share. A value that is not negative bounds them from above. -/
def ofBitwiseAnd (dtype : DataType) (left right : Bound) : Bound :=
  match left.isNonNegative, right.isNonNegative with
  | true, true => ⟨.finite 0, min left.upper right.upper⟩
  | true, false => ⟨.finite 0, left.upper⟩
  | false, true => ⟨.finite 0, right.upper⟩
  | false, false => ofType dtype

/-- The value of a call. -/
def ofCall (dtype : DataType) (op : CallOp) (args : List Bound) : Bound :=
  match op, args with
  | .shiftRight, [value, amount] => (value.shiftRight? amount).getD (ofType dtype)
  | .shiftLeft, [value, amount] => (value.shiftLeft? amount).getD (ofType dtype)
  | .bitwiseAnd, [left, right] => ofBitwiseAnd dtype left right
  | .ifThenElse, [_, onTrue, onFalse] => onTrue.union onFalse
  | _, _ => ofType dtype

/-- The lanes of several vectors. -/
def ofShuffle (dtype : DataType) : List Bound → Bound
  | [] => ofType dtype
  | first :: rest => rest.foldl union first

end Bound

namespace Knowledge

/-! ### The bound of an expression -/

/-- The bound of a node, narrowed by what is known about it. -/
def narrowBound (known : Knowledge) (expr : Expr) (bound : Bound) : Bound :=
  match known.boundOf? expr with
  | some other => bound.intersect other
  | none => bound

/-- The bound of a computed node. Nothing is inferred about floating-point values. -/
def computedBound (known : Knowledge) (expr : Expr) (bound : Bound) : Bound :=
  known.narrowBound expr (if expr.dtype.isFloat then .everything else bound)

mutual

/-- The bound of an expression inside bindings, whose variables have the bounds in the table. -/
def boundWithin (known : Knowledge) (locals : Table Bound) : Expr → Bound
  | expr@(.var _ name) => known.narrowBound expr ((locals.find? name).getD (.ofVariable name))
  | expr@(.intConst _ value) => known.narrowBound expr (.point value)
  | expr@(.boolConst _ value) => known.narrowBound expr (.point value.toNat)
  | expr@(.floatConst _ value) => known.narrowBound expr (.ofFloat value)
  | expr@(.cast dtype value) =>
    known.narrowBound expr (.ofCast dtype (boundWithin known locals value))
  | expr@(.binary dtype op lhs rhs) =>
    known.computedBound expr
      (.ofBinary dtype op (boundWithin known locals lhs) (boundWithin known locals rhs))
  | expr@(.not ..) => known.computedBound expr .truth
  | expr@(.select _ _ onTrue onFalse) =>
    known.computedBound expr
      ((boundWithin known locals onTrue).union (boundWithin known locals onFalse))
  | expr@(.ramp _ base stride lanes) =>
    known.computedBound expr
      ((boundWithin known locals base).add
        ((boundWithin known locals stride).mul (.ofInts 0 (lanes - 1))))
  | expr@(.broadcast _ value _) => known.computedBound expr (boundWithin known locals value)
  | expr@(.shuffle dtype vectors _) =>
    known.computedBound expr (.ofShuffle dtype (boundsWithin known locals vectors))
  | expr@(.letIn _ name value body) =>
    known.computedBound expr
      (boundWithin known (locals.insert name (boundWithin known locals value)) body)
  | expr@(.call dtype op args) =>
    known.computedBound expr (.ofCall dtype op (boundsWithin known locals args))

/-- The bound of each expression. -/
def boundsWithin (known : Knowledge) (locals : Table Bound) : List Expr → List Bound
  | [] => []
  | expr :: rest => boundWithin known locals expr :: boundsWithin known locals rest

end

/-- The constant bound of an expression. -/
def inferBound (known : Knowledge) (expr : Expr) : Bound :=
  known.boundWithin [] (known.isolate expr)

end Knowledge

end IndexAlgebra
