/-
This file builds expressions and checks their types. The operands of a binary node must have
one type; a constant operand takes the type of the other operand where it can. What is built
has the type that its operands call for.
-/
import IndexAlgebra.Expr.Equality
import IndexAlgebra.Expr.Text
import IndexAlgebra.Fault

namespace IndexAlgebra.Expr

/-! ### Constants -/

/-- The constant of a scalar type with an integer value: the value itself, the number nearest to
it, or whether it is not zero. -/
def scalarOfInt (dtype : DataType) (value : Int) : Expr :=
  if dtype.isFloat then floatConst dtype (Binary64.ofInt value)
  else if dtype.isBool then boolConst dtype (decide (value ≠ 0))
  else intConst dtype value

/-- The constant of any type with an integer value. A constant of a vector type is a broadcast
scalar. -/
def ofInt (dtype : DataType) (value : Int) : Expr :=
  if dtype.isVector then broadcast dtype (scalarOfInt dtype.element value) dtype.lanes
  else scalarOfInt dtype value

/-- The constant of any type with a floating-point value. -/
def ofFloat (dtype : DataType) (value : Binary64) : Expr :=
  if dtype.isVector then broadcast dtype (floatConst dtype.element value) dtype.lanes
  else floatConst dtype value

/-- A scalar truth constant. -/
def ofBool (value : Bool) : Expr := boolConst .bool value

/-- The constant of the usual index type, or of the wide one for a value that it cannot hold. -/
def ofIndex (value : Int) : Expr :=
  if DataType.int32.fits value then ofInt .int32 value else ofInt .int64 value

/-- The constant with another type, if the type can hold its value. A truth constant has no
other type. -/
def retypeScalar? (dtype : DataType) : Expr → Option Expr
  | intConst _ value =>
    if dtype.isFloat || dtype.isInteger && dtype.fits value then some (ofInt dtype value) else none
  | floatConst _ value => if dtype.isFloat then some (ofFloat dtype value) else none
  | _ => none

/-- The constant, broadcast or not, with another type, if the type can hold its value. -/
def retype? (dtype : DataType) : Expr → Option Expr
  | broadcast _ value _ => retypeScalar? dtype value
  | expr => retypeScalar? dtype expr

/-- The expression is a constant or a broadcast constant. -/
def isSplatConst : Expr → Bool
  | broadcast _ value _ => value.isConst
  | expr => expr.isConst

/-- The operands with one type, where a constant among them can take the type of the other. The
right one takes the type of the left one if the left one is no constant or the right one is of
the usual index type; otherwise the left one takes the type of the right one. -/
def unify (lhs rhs : Expr) : Expr × Expr :=
  if lhs.dtype = rhs.dtype then (lhs, rhs)
  else
    let left := fun (_ : Unit) => ((retype? rhs.dtype lhs).map fun lhs => (lhs, rhs)).getD (lhs, rhs)
    match retype? lhs.dtype rhs with
    | some retyped =>
      if !lhs.isSplatConst || rhs.dtype = .int32 then (lhs, retyped) else left ()
    | none => left ()

/-! ### Errors that point at operands -/

/-- How a node is printed: with a symbol between its operands, or as a call. -/
inductive Form where
  | between (symbol : String)
  | called (name : String)

namespace Form

def ofOp (op : BinaryOp) : Form :=
  match op.symbol? with
  | some symbol => between symbol
  | none => called op.name

def name : Form → String
  | between symbol => symbol
  | called name => name

/-- The text of a node with two operands, and the regions of the operands in it. -/
def render (form : Form) (lhs rhs : Expr) : String × List (Nat × Nat) :=
  let left := lhs.text
  let right := rhs.text
  let (source, leftStart, rightStart) :=
    match form with
    | between symbol =>
      (left ++ " " ++ symbol ++ " " ++ right, 0, left.utf8ByteSize + symbol.utf8ByteSize + 2)
    | called name =>
      (name ++ "(" ++ left ++ ", " ++ right ++ ")", name.utf8ByteSize + 1,
        name.utf8ByteSize + left.utf8ByteSize + 3)
  (source, [(leftStart, leftStart + left.utf8ByteSize),
    (rightStart, rightStart + right.utf8ByteSize)])

/-- The error of a node about its operands. -/
def fault (form : Form) (lhs rhs : Expr) (cause : Cause) : Fault :=
  let (source, spans) := form.render lhs rhs
  ⟨cause, source, spans⟩

/-- The operands have one type. -/
def checkTypes (form : Form) (lhs rhs : Expr) : Except Fault Unit :=
  if lhs.dtype = rhs.dtype then .ok ()
  else if lhs.dtype.element = rhs.dtype.element then
    .error (form.fault lhs rhs (.mismatchedLanes form.name lhs.lanes rhs.lanes))
  else .error (form.fault lhs rhs (.mismatchedTypes form.name lhs.dtype rhs.dtype))

/-- The operands are truth values. The error states the type of the first that is not. -/
def checkLogical (form : Form) (lhs rhs : Expr) : Except Fault Unit :=
  if !lhs.dtype.isBool then .error (form.fault lhs rhs (.nonBoolean form.name lhs.dtype))
  else if !rhs.dtype.isBool then .error (form.fault lhs rhs (.nonBoolean form.name rhs.dtype))
  else .ok ()

end Form

/-- The error of a node about its only operand or its condition. -/
def operandFault (operand : Expr) (cause : Cause) : Fault :=
  ⟨cause, operand.text, [(0, operand.text.utf8ByteSize)]⟩

/-! ### Checked nodes -/

/-- The type of a binary node with operands of one type. -/
def binaryType (op : BinaryOp) (operand : DataType) : DataType :=
  if op.isComparison then DataType.bool.withLanes operand.lanes else operand

/-- A binary node. -/
def mkBinary (op : BinaryOp) (lhs rhs : Expr) : Except Fault Expr := do
  let (lhs, rhs) := unify lhs rhs
  let form := Form.ofOp op
  if op.isLogical then form.checkLogical lhs rhs
  form.checkTypes lhs rhs
  return binary (binaryType op lhs.dtype) op lhs rhs

/-- A binary node, if the operands have one type. -/
def binary? (op : BinaryOp) (lhs rhs : Expr) : Option Expr := (mkBinary op lhs rhs).toOption

/-- The difference of zero and an expression. -/
def mkNeg (value : Expr) : Except Fault Expr := mkBinary .sub (ofInt value.dtype 0) value

/-- The negation of a truth value. -/
def mkNot (value : Expr) : Except Fault Expr :=
  if value.dtype.isBool then .ok (not value.dtype value)
  else .error (operandFault value (.nonBoolean "not" value.dtype))

/-- A choice. Its condition has one lane or as many lanes as its values. -/
def mkSelect (cond onTrue onFalse : Expr) : Except Fault Expr := do
  let (onTrue, onFalse) := unify onTrue onFalse
  if !cond.dtype.isBool then throw (operandFault cond (.nonBoolean "select" cond.dtype))
  (Form.called "select").checkTypes onTrue onFalse
  if cond.lanes ≠ onTrue.lanes && cond.lanes ≠ 1 then
    throw ⟨.mismatchedLanes "select" cond.lanes onTrue.lanes, "", []⟩
  return select onTrue.dtype cond onTrue onFalse

/-- A ramp. Its base and stride are scalars. -/
def mkRamp (base stride : Expr) (lanes : Nat) : Except Fault Expr := do
  let (base, stride) := unify base stride
  (Form.called "ramp").checkTypes base stride
  if base.dtype.isVector then throw ⟨.mismatchedLanes "ramp" base.lanes 1, "", []⟩
  return ramp (base.dtype.withLanes lanes) base stride lanes

/-- A conversion, which keeps the lanes of its operand. -/
def mkCast (dtype : DataType) (value : Expr) : Expr := cast (dtype.withLanes value.lanes) value

/-- A broadcast. -/
def mkBroadcast (value : Expr) (lanes : Nat) : Expr :=
  broadcast (value.dtype.withLanes lanes) value lanes

/-- A shuffle. Its lanes are counted up to 65535, and its type follows the first vector. -/
def mkShuffle (vectors : List Expr) (indices : List Nat) : Expr :=
  let element := (vectors.head?.map fun vector => vector.dtype.element).getD .int32
  shuffle (element.withLanes (min indices.length 65535)) vectors indices

/-- A binding. -/
def mkLet (name : Variable) (value body : Expr) : Expr := letIn body.dtype name value body

/-- A call of a builtin operation. Its type is that of the first argument, or of the branch
taken when the condition holds. -/
def mkCall (op : CallOp) (args : List Expr) : Except Fault Expr :=
  let typed? :=
    match op with
    | .ifThenElse => args[1]?
    | _ => args[0]?
  match op with
  | .external _ => .error ⟨.untypedCall, "", []⟩
  | _ => .ok (call ((typed?.map dtype).getD .int32) op args)

/-- A call of an external function. -/
def mkExternal (name : String) (dtype : DataType) (args : List Expr) : Expr :=
  call dtype (.external name) args

end IndexAlgebra.Expr
