/-
This file writes expressions as trees of data and reads them back. A node is the list of its
type and its kind, and the kind is a tag with the parts of the node. A floating-point constant
that is not finite has no written form: it is written as nothing, which cannot be read.
-/
import IndexAlgebra.Expr
import IndexAlgebra.Tree

namespace IndexAlgebra

/-! ### Tags -/

/-- The tag of a type code. -/
def TypeCode.tag : TypeCode → String
  | int => "Int"
  | uint => "UInt"
  | float => "Float"
  | bfloat => "BFloat"
  | bool => "Bool"

/-- The tag of a binary operator. -/
def BinaryOp.tag : BinaryOp → String
  | add => "Add"
  | sub => "Sub"
  | mul => "Mul"
  | truncDiv => "Div"
  | truncMod => "Mod"
  | floorDiv => "FloorDiv"
  | floorMod => "FloorMod"
  | min => "Min"
  | max => "Max"
  | eq => "Eq"
  | ne => "Ne"
  | lt => "Lt"
  | le => "Le"
  | gt => "Gt"
  | ge => "Ge"
  | and => "And"
  | or => "Or"

/-- The tag of the operation of a call. -/
def CallOp.tag : CallOp → String
  | shiftLeft => "ShiftLeft"
  | shiftRight => "ShiftRight"
  | bitwiseAnd => "BitwiseAnd"
  | bitwiseOr => "BitwiseOr"
  | bitwiseXor => "BitwiseXor"
  | bitwiseNot => "BitwiseNot"
  | ifThenElse => "IfThenElse"
  | external _ => "Opaque"

/-! ### Parts of a node -/

namespace DataType

def toTree (dtype : DataType) : Tree :=
  .record [("code", .text dtype.code.tag), ("bits", .int dtype.bits), ("lanes", .int dtype.lanes)]

def ofTree? (tree : Tree) : Option DataType :=
  match tree.fields? ["code", "bits", "lanes"] with
  | some [code, bits, lanes] => do
    let tag ← code.tag?
    let code ← TypeCode.all.find? fun code => code.tag == tag
    return ⟨code, ← bits.natUpTo? 255, ← lanes.natUpTo? 65535⟩
  | _ => none

end DataType

namespace Variable

def toTree (name : Variable) : Tree :=
  .record [("name", .text name.name), ("dtype", name.dtype.toTree),
    ("non_negative", .bool name.nonNegative)]

def ofTree? (tree : Tree) : Option Variable :=
  match tree.fields? ["name", "dtype", "non_negative"] with
  | some [name, dtype, nonNegative] => do
    return ⟨← name.text?, ← DataType.ofTree? dtype, ← nonNegative.bool?⟩
  | _ => none

end Variable

namespace BinaryOp

def toTree (op : BinaryOp) : Tree := .text op.tag

def ofTree? (tree : Tree) : Option BinaryOp := do
  let tag ← tree.tag?
  all.find? fun op => op.tag == tag

end BinaryOp

namespace CallOp

def toTree : CallOp → Tree
  | external name => .record [("Opaque", .text name)]
  | op => .text op.tag

def ofTree? (tree : Tree) : Option CallOp :=
  match tree.tagged? with
  | some ("Opaque", content) => content.text?.map external
  | some (tag, .null) => builtins.find? fun op => op.tag == tag
  | _ => none

end CallOp

/-! ### Expressions -/

namespace Expr

/-- A finite number, or nothing. -/
def floatTree (value : Binary64) : Tree := if value.isFinite then .float value else .null

mutual

/-- The written form of an expression. -/
def toTree : Expr → Tree
  | var dtype name => .list [dtype.toTree, .record [("Var", name.toTree)]]
  | intConst dtype value => .list [dtype.toTree, .record [("IntImm", .int value)]]
  | floatConst dtype value => .list [dtype.toTree, .record [("FloatImm", floatTree value)]]
  | boolConst dtype value => .list [dtype.toTree, .record [("BoolImm", .bool value)]]
  | cast dtype value => .list [dtype.toTree, .record [("Cast", toTree value)]]
  | binary dtype op lhs rhs =>
    .list [dtype.toTree, .record [("Binary", .list [op.toTree, toTree lhs, toTree rhs])]]
  | not dtype value => .list [dtype.toTree, .record [("Not", toTree value)]]
  | select dtype cond onTrue onFalse =>
    .list [dtype.toTree,
      .record [("Select", .list [toTree cond, toTree onTrue, toTree onFalse])]]
  | ramp dtype base stride lanes =>
    .list [dtype.toTree, .record [("Ramp", .record
      [("base", toTree base), ("stride", toTree stride), ("lanes", .int lanes)])]]
  | broadcast dtype value lanes =>
    .list [dtype.toTree, .record [("Broadcast", .record
      [("value", toTree value), ("lanes", .int lanes)])]]
  | shuffle dtype vectors indices =>
    .list [dtype.toTree, .record [("Shuffle", .record
      [("vectors", .list (toTreeList vectors)),
        ("indices", .list (indices.map fun (index : Nat) => .int index))])]]
  | letIn dtype name value body =>
    .list [dtype.toTree, .record [("Let", .record
      [("var", name.toTree), ("value", toTree value), ("body", toTree body)])]]
  | call dtype op args =>
    .list [dtype.toTree, .record [("Call", .record
      [("op", op.toTree), ("args", .list (toTreeList args))])]]

/-- The written form of each expression. -/
def toTreeList : List Expr → List Tree
  | [] => []
  | expr :: rest => toTree expr :: toTreeList rest

end

/-- The expression that a tree writes. Each expression inside it is read from a tree nested in
the tree, so that the depth of the tree is fuel enough. -/
def readTree : Nat → Tree → Option Expr
  | 0, _ => none
  | fuel + 1, tree =>
    match tree with
    | .list [dtype, kind] => do
      let dtype ← DataType.ofTree? dtype
      match kind.tagged? with
      | some ("Var", content) => return var dtype (← Variable.ofTree? content)
      | some ("IntImm", content) => return intConst dtype (← content.word?)
      | some ("FloatImm", content) => return floatConst dtype (← content.float?)
      | some ("BoolImm", content) => return boolConst dtype (← content.bool?)
      | some ("Cast", content) => return cast dtype (← readTree fuel content)
      | some ("Binary", .list [op, lhs, rhs]) =>
        return binary dtype (← BinaryOp.ofTree? op) (← readTree fuel lhs) (← readTree fuel rhs)
      | some ("Not", content) => return not dtype (← readTree fuel content)
      | some ("Select", .list [cond, onTrue, onFalse]) =>
        return select dtype (← readTree fuel cond) (← readTree fuel onTrue)
          (← readTree fuel onFalse)
      | some ("Ramp", content) =>
        match content.recordFields? ["base", "stride", "lanes"] with
        | some [base, stride, lanes] =>
          return ramp dtype (← readTree fuel base) (← readTree fuel stride)
            (← lanes.natUpTo? 65535)
        | _ => none
      | some ("Broadcast", content) =>
        match content.recordFields? ["value", "lanes"] with
        | some [value, lanes] =>
          return broadcast dtype (← readTree fuel value) (← lanes.natUpTo? 65535)
        | _ => none
      | some ("Shuffle", content) =>
        match content.recordFields? ["vectors", "indices"] with
        | some [.list vectors, .list indices] =>
          return shuffle dtype (← vectors.mapM (readTree fuel))
            (← indices.mapM (Tree.natUpTo? 4294967295))
        | _ => none
      | some ("Let", content) =>
        match content.recordFields? ["var", "value", "body"] with
        | some [name, value, body] =>
          return letIn dtype (← Variable.ofTree? name) (← readTree fuel value)
            (← readTree fuel body)
        | _ => none
      | some ("Call", content) =>
        match content.recordFields? ["op", "args"] with
        | some [op, .list args] =>
          return call dtype (← CallOp.ofTree? op) (← args.mapM (readTree fuel))
        | _ => none
      | _ => none
    | _ => none

/-- The expression that a tree writes. -/
def ofTree? (tree : Tree) : Option Expr := readTree tree.depth tree

end Expr

end IndexAlgebra
