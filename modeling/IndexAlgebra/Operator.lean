/-
This file holds the operators of expressions: the binary operators with their printed form,
precedence and class, the laws that relate comparisons, and the operations of a call.
-/

namespace IndexAlgebra

/-- How tightly an operator binds when it is printed between its operands. -/
inductive Precedence where
  /-- A binding, `let x = v in body`. -/
  | binding
  /-- `||` -/
  | or
  /-- `&&` -/
  | and
  /-- `==`, `!=`, `<`, `<=`, `>` and `>=` -/
  | compare
  /-- `+` and `-` -/
  | term
  /-- `*` -/
  | factor
  /-- `!`, which binds tighter than every binary operator. -/
  | not
  /-- Literals, variables and whatever is printed as a call. -/
  | primary
  deriving DecidableEq, Repr

/-- The family of a binary operator. -/
inductive OpClass where
  /-- The result has the type of the operands. -/
  | arithmetic
  /-- The result is a truth value about two operands of one type. -/
  | comparison
  /-- The result is a truth value made from two truth values. -/
  | logical
  deriving DecidableEq, Repr

/-- A binary operator. -/
inductive BinaryOp where
  | add
  | sub
  | mul
  /-- The quotient rounded toward zero. -/
  | truncDiv
  /-- The remainder of `truncDiv`, with the sign of the dividend. -/
  | truncMod
  /-- The quotient rounded toward negative infinity. -/
  | floorDiv
  /-- The remainder of `floorDiv`, with the sign of the divisor. -/
  | floorMod
  | min
  | max
  | eq
  | ne
  | lt
  | le
  | gt
  | ge
  | and
  | or
  deriving DecidableEq, Repr, Inhabited

/-- The operation of a call. -/
inductive CallOp where
  | shiftLeft
  | shiftRight
  | bitwiseAnd
  | bitwiseOr
  | bitwiseXor
  | bitwiseNot
  /-- A choice that evaluates only the branch it takes. -/
  | ifThenElse
  /-- A pure function that nothing is known about. -/
  | external (name : String)
  deriving DecidableEq, Repr

namespace Precedence

/-- The position of a precedence; the greater binds tighter. -/
def rank : Precedence → Nat
  | binding => 0
  | or => 1
  | and => 2
  | compare => 3
  | term => 4
  | factor => 5
  | not => 6
  | primary => 7

instance : LT Precedence := ⟨fun looser tighter => looser.rank < tighter.rank⟩

instance (looser tighter : Precedence) : Decidable (looser < tighter) :=
  inferInstanceAs (Decidable (looser.rank < tighter.rank))

end Precedence

namespace BinaryOp

/-- Every operator, in the order of expressions. -/
def all : List BinaryOp :=
  [add, sub, mul, truncDiv, truncMod, floorDiv, floorMod, min, max, eq, ne, lt, le, gt, ge, and, or]

theorem mem_all (op : BinaryOp) : op ∈ all := by cases op <;> decide

/-- The position of an operator in the order of expressions. -/
def rank : BinaryOp → Nat
  | add => 0
  | sub => 1
  | mul => 2
  | truncDiv => 3
  | truncMod => 4
  | floorDiv => 5
  | floorMod => 6
  | min => 7
  | max => 8
  | eq => 9
  | ne => 10
  | lt => 11
  | le => 12
  | gt => 13
  | ge => 14
  | and => 15
  | or => 16

theorem rank_injective {first second : BinaryOp} (equal : first.rank = second.rank) :
    first = second := by
  cases first <;> cases second <;> simp_all [rank]

/-- The name of the operator when it is printed as a call. -/
def name : BinaryOp → String
  | add => "add"
  | sub => "sub"
  | mul => "mul"
  | truncDiv => "truncdiv"
  | truncMod => "truncmod"
  | floorDiv => "floordiv"
  | floorMod => "floormod"
  | min => "min"
  | max => "max"
  | eq => "eq"
  | ne => "ne"
  | lt => "lt"
  | le => "le"
  | gt => "gt"
  | ge => "ge"
  | and => "and"
  | or => "or"

/-- The operator with the given name. -/
def ofName? (name : String) : Option BinaryOp := all.find? (fun op => op.name == name)

/-- The symbol printed between the operands, for an operator that has one. -/
def symbol? : BinaryOp → Option String
  | add => some "+"
  | sub => some "-"
  | mul => some "*"
  | eq => some "=="
  | ne => some "!="
  | lt => some "<"
  | le => some "<="
  | gt => some ">"
  | ge => some ">="
  | and => some "&&"
  | or => some "||"
  | truncDiv | truncMod | floorDiv | floorMod | min | max => none

/-- The symbol of the operator, or else its name. -/
def text (op : BinaryOp) : String := op.symbol?.getD op.name

instance : ToString BinaryOp := ⟨text⟩

def precedence : BinaryOp → Precedence
  | add | sub => .term
  | mul => .factor
  | truncDiv | truncMod | floorDiv | floorMod | min | max => .primary
  | eq | ne | lt | le | gt | ge => .compare
  | and => .and
  | or => .or

def opClass : BinaryOp → OpClass
  | eq | ne | lt | le | gt | ge => .comparison
  | and | or => .logical
  | _ => .arithmetic

def isComparison (op : BinaryOp) : Bool := op.opClass == .comparison

def isLogical (op : BinaryOp) : Bool := op.opClass == .logical

/-- Swapping the operands keeps the value. -/
def isCommutative : BinaryOp → Bool
  | add | mul | min | max | eq | ne | and | or => true
  | _ => false

/-- The operator is a quotient or a remainder. -/
def isDivision : BinaryOp → Bool
  | truncDiv | truncMod | floorDiv | floorMod => true
  | _ => false

/-- The comparison that holds of the swapped operands: `a < b` holds when `b > a` does. -/
def flip? : BinaryOp → Option BinaryOp
  | eq => some eq
  | ne => some ne
  | lt => some gt
  | le => some ge
  | gt => some lt
  | ge => some le
  | _ => none

theorem flip?_involutive {op flipped : BinaryOp} (flips : op.flip? = some flipped) :
    flipped.flip? = some op := by
  cases op <;> simp_all [flip?] <;> subst flips <;> rfl

/-- The comparison that holds exactly when this one fails: `a < b` fails when `a >= b` holds. -/
def negate? : BinaryOp → Option BinaryOp
  | eq => some ne
  | ne => some eq
  | lt => some ge
  | le => some gt
  | gt => some le
  | ge => some lt
  | _ => none

theorem negate?_involutive {op negated : BinaryOp} (negates : op.negate? = some negated) :
    negated.negate? = some op := by
  cases op <;> simp_all [negate?] <;> subst negates <;> rfl

/-- The comparison that is `true` of equal operands. -/
def holdsOfEqual : BinaryOp → Bool
  | eq | le | ge => true
  | _ => false

/-- `max` for `min`, and `min` for every other operator; used on `min` and `max` alone. -/
def dual (op : BinaryOp) : BinaryOp := if op = .min then .max else .min

end BinaryOp

namespace CallOp

/-- The builtin operations, in the order of expressions. -/
def builtins : List CallOp :=
  [shiftLeft, shiftRight, bitwiseAnd, bitwiseOr, bitwiseXor, bitwiseNot, ifThenElse]

/-- The position of an operation in the order of expressions; external functions come last. -/
def rank : CallOp → Nat
  | shiftLeft => 0
  | shiftRight => 1
  | bitwiseAnd => 2
  | bitwiseOr => 3
  | bitwiseXor => 4
  | bitwiseNot => 5
  | ifThenElse => 6
  | external _ => 7

/-- The printed name of the operation. -/
def name : CallOp → String
  | shiftLeft => "shift_left"
  | shiftRight => "shift_right"
  | bitwiseAnd => "bitwise_and"
  | bitwiseOr => "bitwise_or"
  | bitwiseXor => "bitwise_xor"
  | bitwiseNot => "bitwise_not"
  | ifThenElse => "if_then_else"
  | external name => name

/-- The builtin operation with the given name. -/
def ofName? (name : String) : Option CallOp := builtins.find? (fun op => op.name == name)

/-- The number of arguments, for an operation that fixes it. -/
def arity? : CallOp → Option Nat
  | bitwiseNot => some 1
  | shiftLeft | shiftRight | bitwiseAnd | bitwiseOr | bitwiseXor => some 2
  | ifThenElse => some 3
  | external _ => none

/-- Operations are ordered by kind, and external functions by name. -/
def compare (first second : CallOp) : Ordering :=
  match first, second with
  | external firstName, external secondName => Ord.compare firstName secondName
  | _, _ => Ord.compare first.rank second.rank

end CallOp

end IndexAlgebra
