/-
This file infers the congruence class of an expression. Only integer nodes have one that says
anything. The class of a node follows from the classes of its operands, and what is known about
the node itself narrows it further.
-/
import IndexAlgebra.Knowledge.Bounds

namespace IndexAlgebra

namespace Congruence

/-! ### The class of a node from those of its operands -/

/-- The value of a class that holds a single integer other than zero: a divisor. -/
def divisor? (congruence : Congruence) : Option Int :=
  if congruence.isConstant && congruence.base != 0 then some congruence.base else none

/-- The value of a binary node. The last argument states that the left operand is not negative. -/
def ofBinary (op : BinaryOp) (left right : Congruence) (nonNegative : Bool) : Congruence :=
  match op with
  | .add => left.add right
  | .sub => left.sub right
  | .mul => left.mul right
  | .truncDiv =>
    (right.divisor?.map fun divisor => left.divConst divisor false nonNegative).getD everything
  | .floorDiv =>
    (right.divisor?.map fun divisor => left.divConst divisor true false).getD everything
  | .truncMod => (right.divisor?.map fun divisor => left.modConst divisor false).getD everything
  | .floorMod => (right.divisor?.map fun divisor => left.modConst divisor true).getD everything
  | .min | .max => left.union right
  | .eq | .ne | .lt | .le | .gt | .ge | .and | .or => everything

/-- The value shifted left by a constant amount from 0 to 62: the product with a power of two. -/
def shiftLeft (value : Congruence) (amount? : Option Int) : Congruence :=
  match amount? with
  | some amount =>
    if 0 ≤ amount ∧ amount ≤ 62 then value.mul (constant (twoPow amount.toNat)) else everything
  | none => everything

/-- The value of a call, where each argument comes with its class. -/
def ofCall (op : CallOp) (args : List (Expr × Congruence)) : Congruence :=
  match op, args with
  | .shiftLeft, [(_, value), (amount, _)] => value.shiftLeft amount.asInt?
  | .ifThenElse, [_, (_, onTrue), (_, onFalse)] => onTrue.union onFalse
  | _, _ => everything

end Congruence

namespace Knowledge

/-! ### The class of an expression -/

/-- The class of a node, narrowed by what is known about it. A node that is no integer belongs
to no class of its own. -/
def narrowCongruence (known : Knowledge) (expr : Expr) (congruence : Congruence) : Congruence :=
  if expr.dtype.isInteger then
    match known.congruenceOf? expr with
    | some other => congruence.intersect other
    | none => congruence
  else .everything

mutual

/-- The class of an expression inside bindings, whose variables have the classes in the table. A
variable that is bound inside the expression is not narrowed further. -/
def congruenceWithin (known : Knowledge) (locals : Table Congruence) : Expr → Congruence
  | expr@(.var dtype name) =>
    match locals.find? name with
    | some congruence => if dtype.isInteger then congruence else .everything
    | none => known.narrowCongruence expr .everything
  | expr@(.intConst _ value) => known.narrowCongruence expr (.constant value)
  | expr@(.binary _ op lhs rhs) =>
    known.narrowCongruence expr
      (.ofBinary op (congruenceWithin known locals lhs) (congruenceWithin known locals rhs)
        (op == .truncDiv && (known.inferBound lhs).isNonNegative))
  | expr@(.select _ _ onTrue onFalse) =>
    known.narrowCongruence expr
      ((congruenceWithin known locals onTrue).union (congruenceWithin known locals onFalse))
  | expr@(.cast dtype value) =>
    known.narrowCongruence expr
      (if value.dtype.isInteger && (known.inferBound value).fits dtype then
        congruenceWithin known locals value
      else .everything)
  | expr@(.broadcast _ value _) =>
    known.narrowCongruence expr (congruenceWithin known locals value)
  | expr@(.ramp _ base stride _) =>
    known.narrowCongruence expr
      ((congruenceWithin known locals base).add
        ((congruenceWithin known locals stride).mul .everything))
  | expr@(.letIn _ name value body) =>
    known.narrowCongruence expr
      (congruenceWithin known (locals.insert name (congruenceWithin known locals value)) body)
  | expr@(.call _ op args) =>
    known.narrowCongruence expr
      (.ofCall op (args.zip (congruencesWithin known locals args)))
  | expr@(.floatConst ..) | expr@(.boolConst ..) | expr@(.not ..) | expr@(.shuffle ..) =>
    known.narrowCongruence expr .everything

/-- The class of each expression. -/
def congruencesWithin (known : Knowledge) (locals : Table Congruence) :
    List Expr → List Congruence
  | [] => []
  | expr :: rest => congruenceWithin known locals expr :: congruencesWithin known locals rest

end

/-- The congruence class of an expression. -/
def inferCongruence (known : Knowledge) (expr : Expr) : Congruence :=
  known.congruenceWithin [] (known.isolate expr)

end Knowledge

end IndexAlgebra
