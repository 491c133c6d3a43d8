/-
This file evaluates expressions, and so says what they mean. Evaluation has no value where the
meaning is undefined: a variable without a value, a division by zero, an integer that does not
fit its type, a lane that does not exist, or a call of an external function.

The range of integers is a parameter. With `checked` an integer has to fit the type of its
node, and with `unbounded` the integers are those of arithmetic.
-/
import IndexAlgebra.Expr

namespace IndexAlgebra

/-- The value of an expression. -/
inductive Value where
  | int (value : Int)
  | float (value : Binary64)
  | bool (value : Bool)
  /-- One value for each lane. -/
  | vector (lanes : List Value)
  deriving Repr, Inhabited

/-- The integer as the value of a node of the given type, if the type can hold it. -/
abbrev RangeCheck := DataType → Int → Option Int

/-- The values of the variables that have one. -/
abbrev Environment := Variable → Option Value

namespace RangeCheck

/-- An integer has to be a word that fits one lane of the type. -/
def checked : RangeCheck := fun dtype value =>
  if Word.Fits value ∧ dtype.element.fits value then some value else none

/-- Every integer is taken as it is. -/
def unbounded : RangeCheck := fun _ value => some value

end RangeCheck

namespace Environment

/-- The environment without values. -/
def empty : Environment := fun _ => none

/-- The environment with one variable given a value. -/
def set (env : Environment) (name : Variable) (value : Value) : Environment :=
  fun other => if other = name then some value else env other

end Environment

namespace Value

/-- The integer that a scalar stands for, where a truth value stands for zero or one. -/
def asInt? : Value → Option Int
  | int value => some value
  | bool value => some value.toNat
  | float _ | vector _ => none

/-- The truth value of a scalar. -/
def asBool? : Value → Option Bool
  | bool value => some value
  | int _ | float _ | vector _ => none

/-- The lanes of a vector, or a scalar repeated in every lane. -/
def toLanes (count : Nat) : Value → List Value
  | vector lanes => lanes
  | scalar => List.replicate count scalar

/-- The value with the given lanes; a single lane is a scalar. -/
def ofLanes : List Value → Value
  | [single] => single
  | lanes => vector lanes

end Value

/-! ### Scalars -/

namespace Scalar

/-- A binary operator on integers. A result has to be in the range of the type of the operands. -/
def binaryInt? (check : RangeCheck) (dtype : DataType) (op : BinaryOp) (left right : Int) :
    Option Value :=
  let inRange (value : Int) : Option Value := (check dtype value).map .int
  let divide (divide : Int → Int → Int) : Option Value :=
    if right = 0 then none else inRange (divide left right)
  match op with
  | .add => inRange (left + right)
  | .sub => inRange (left - right)
  | .mul => inRange (left * right)
  | .truncDiv => divide Int.tdiv
  | .truncMod => divide Int.tmod
  | .floorDiv => divide Int.fdiv
  | .floorMod => divide Int.fmod
  | .min => inRange (min left right)
  | .max => inRange (max left right)
  | .eq => some (.bool (decide (left = right)))
  | .ne => some (.bool (decide (left ≠ right)))
  | .lt => some (.bool (decide (left < right)))
  | .le => some (.bool (decide (left ≤ right)))
  | .gt => some (.bool (decide (left > right)))
  | .ge => some (.bool (decide (left ≥ right)))
  | .and | .or => none

/-- A binary operator on floating-point numbers. They have no remainder, and no quotient
rounded toward zero: `truncDiv` is the plain quotient. -/
def binaryFloat? (op : BinaryOp) (left right : Binary64) : Option Value :=
  match op with
  | .add => some (.float (left.add right))
  | .sub => some (.float (left.sub right))
  | .mul => some (.float (left.mul right))
  | .truncDiv => some (.float (left.div right))
  | .floorDiv => some (.float (left.div right).floor)
  | .min => some (.float (left.min right))
  | .max => some (.float (left.max right))
  | .eq => some (.bool (left.eq right))
  | .ne => some (.bool (!left.eq right))
  | .lt => some (.bool (left.lt right))
  | .le => some (.bool (left.le right))
  | .gt => some (.bool (right.lt left))
  | .ge => some (.bool (right.le left))
  | .truncMod | .floorMod | .and | .or => none

/-- A binary operator on two scalars of one kind. Truth values are the integers zero and one
for every operator but the logical ones and equality. -/
def binary? (check : RangeCheck) (dtype : DataType) (op : BinaryOp) : Value → Value → Option Value
  | .bool left, .bool right =>
    match op with
    | .and => some (.bool (left && right))
    | .or => some (.bool (left || right))
    | .eq => some (.bool (left == right))
    | .ne => some (.bool (left != right))
    | _ => binaryInt? check dtype op left.toNat right.toNat
  | .float left, .float right => binaryFloat? op left right
  | .int left, .int right => binaryInt? check dtype op left right
  | _, _ => none

/-- The integer with the lowest bits of another, as one lane of an integer type reads them. -/
def wrap (dtype : DataType) (value : Int) : Int :=
  let modulus : Int := twoPow dtype.bits
  let wrapped := value.emod modulus
  if dtype.isInt && decide (modulus.tdiv 2 ≤ wrapped) then wrapped - modulus else wrapped

/-- The integer that a scalar converts to: a truth value is zero or one, and a floating-point
number is cut toward zero and kept within 128 bits. -/
def toInteger? : Value → Option Int
  | .bool value => some value.toNat
  | .int value => some value
  | .float value => value.truncate?.map fun integer => max (-twoPow 127) (min integer (twoPow 127 - 1))
  | .vector _ => none

/-- The conversion of a scalar to a type. Integers of fewer than 64 bits wrap around; wider ones
have to be in the range of the type. -/
def cast? (check : RangeCheck) (dtype : DataType) (value : Value) : Option Value :=
  if dtype.isBool then
    match value with
    | .bool value => some (.bool value)
    | .int value => some (.bool (decide (value ≠ 0)))
    | .float value => some (.bool (!value.isZero))
    | .vector _ => none
  else if dtype.isFloat then
    match value with
    | .bool value => some (.float (Binary64.ofInt value.toNat))
    | .int value => some (.float (Binary64.ofInt value))
    | .float value => some (.float value)
    | .vector _ => none
  else
    (toInteger? value).bind fun integer =>
      (check dtype (if 64 ≤ dtype.bits then integer else wrap dtype integer)).map .int

/-- The bits of an integer in two's complement, wide enough for a word. -/
def toBits (value : Int) : BitVec 128 := BitVec.ofInt 128 value

/-- A bitwise operation on integers. A shift has to be by fewer bits than the type has, and the
shifted integer is kept within 128 bits. -/
def bitwise? (dtype : DataType) (op : CallOp) (left right : Int) : Option Int :=
  let inWidth := decide (0 ≤ right ∧ right < dtype.bits)
  match op with
  | .shiftLeft => if inWidth then some ((left * twoPow right.toNat).bmod (twoPow 128)) else none
  | .shiftRight => if inWidth then some (left.fdiv (twoPow right.toNat)) else none
  | .bitwiseAnd => some (toBits left &&& toBits right).toInt
  | .bitwiseOr => some (toBits left ||| toBits right).toInt
  | .bitwiseXor => some (toBits left ^^^ toBits right).toInt
  | .bitwiseNot | .ifThenElse | .external _ => none

end Scalar

/-! ### Expressions -/

namespace Expr

/-- A function applied lane by lane, as far as both operands have lanes. -/
def zipLanes? (f : Value → Value → Option Value) (left right : List Value) : Option Value :=
  ((List.zip left right).mapM fun lane => f lane.1 lane.2).map Value.ofLanes

/-- The choice of one lane. -/
def choose? (cond : Value) (values : Value × Value) : Option Value :=
  cond.asBool?.map fun holds => if holds then values.1 else values.2

mutual

/-- The value of an expression under the values of its variables. -/
def evaluate (check : RangeCheck) (env : Environment) : Expr → Option Value
  | var _ name => env name
  | intConst _ value => some (.int value)
  | floatConst _ value => some (.float value)
  | boolConst _ value => some (.bool value)
  | cast dtype value => do
    let value ← evaluate check env value
    let lanes ← (value.toLanes dtype.lanes).mapM (Scalar.cast? check dtype.element)
    return .ofLanes lanes
  | binary dtype op lhs rhs => do
    let left ← evaluate check env lhs
    let right ← evaluate check env rhs
    zipLanes? (Scalar.binary? check lhs.dtype.element op)
      (left.toLanes dtype.lanes) (right.toLanes dtype.lanes)
  | not dtype value => do
    let value ← evaluate check env value
    let lanes ← (value.toLanes dtype.lanes).mapM fun lane => lane.asBool?.map fun b => .bool (!b)
    return .ofLanes lanes
  | select dtype cond onTrue onFalse => do
    let cond ← evaluate check env cond
    let onTrue ← evaluate check env onTrue
    let onFalse ← evaluate check env onFalse
    let values := List.zip (onTrue.toLanes dtype.lanes) (onFalse.toLanes dtype.lanes)
    let lanes ← (List.zip (cond.toLanes dtype.lanes) values).mapM fun lane =>
      choose? lane.1 lane.2
    return .ofLanes lanes
  | ramp dtype base stride lanes => do
    let base ← (← evaluate check env base).asInt?
    let stride ← (← evaluate check env stride).asInt?
    let values ← (List.range lanes).mapM fun (lane : Nat) =>
      (check dtype (base + lane * stride)).map Value.int
    return .vector values
  | broadcast _ value lanes => do
    let value ← evaluate check env value
    return .vector (List.replicate lanes value)
  | shuffle _ vectors indices => do
    let lanes ← evaluateLanes check env vectors
    let values ← indices.mapM fun index => lanes[index]?
    return .ofLanes values
  | letIn _ name value body => do
    let value ← evaluate check env value
    evaluate check (env.set name value) body
  | call dtype .ifThenElse [cond, onTrue, onFalse] =>
    if dtype.isScalar then do
      let holds ← (← evaluate check env cond).asBool?
      if holds then evaluate check env onTrue else evaluate check env onFalse
    else none
  | call dtype .bitwiseNot [value] =>
    if dtype.isScalar then do
      let value ← (← evaluate check env value).asInt?
      (check dtype (-value - 1)).map .int
    else none
  | call dtype op [lhs, rhs] =>
    if dtype.isScalar then do
      let left ← (← evaluate check env lhs).asInt?
      let right ← (← evaluate check env rhs).asInt?
      let result ← Scalar.bitwise? dtype op left right
      (check dtype result).map .int
    else none
  | call .. => none

/-- The lanes of several vectors, laid end to end. -/
def evaluateLanes (check : RangeCheck) (env : Environment) : List Expr → Option (List Value)
  | [] => some []
  | vector :: rest => do
    let value ← evaluate check env vector
    let lanes ← evaluateLanes check env rest
    return value.toLanes vector.lanes ++ lanes

end

/-- The value of an expression whose integers all fit their types. -/
def eval (expr : Expr) (env : Environment) : Option Value := expr.evaluate .checked env

/-- The value of an expression over the integers of arithmetic. -/
def evalExact (expr : Expr) (env : Environment) : Option Value := expr.evaluate .unbounded env

end Expr

end IndexAlgebra
