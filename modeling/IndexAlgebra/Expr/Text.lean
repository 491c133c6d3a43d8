/-
This file prints expressions. Operators that have a symbol are printed between their operands,
with parentheses only where the precedence of an operand asks for them; every other node is
printed as a call.
-/
import IndexAlgebra.Binary64.Decimal
import IndexAlgebra.Expr

namespace IndexAlgebra.Expr

/-- The precedence that an expression is printed with. -/
def precedence : Expr → Precedence
  | binary _ op _ _ => op.precedence
  | not .. => .not
  | letIn .. => .binding
  | _ => .primary

/-- An operand is put in parentheses when it binds looser than its parent, and also when it
binds equally and stands on the right or is a comparison in a comparison. -/
def needsParentheses (operand parent : Precedence) (onRight : Bool) : Bool :=
  decide (operand < parent) || operand == parent && (onRight || parent == .compare)

/-- The text of an operand, in parentheses if need be. -/
def enclose (parentheses : Bool) (text : String) : String :=
  if parentheses then "(" ++ text ++ ")" else text

mutual

/-- The printed form of an expression. -/
def text : Expr → String
  | var _ name => name.name
  | intConst _ value => toString value
  | floatConst _ value => value.text
  | boolConst _ value => toString value
  | cast dtype value => dtype.text ++ "(" ++ text value ++ ")"
  | binary _ op lhs rhs =>
    match op.symbol? with
    | some symbol =>
      enclose (needsParentheses lhs.precedence op.precedence false) (text lhs) ++ " " ++ symbol ++
        " " ++ enclose (needsParentheses rhs.precedence op.precedence true) (text rhs)
    | none => op.name ++ "(" ++ text lhs ++ ", " ++ text rhs ++ ")"
  | not _ value => "!" ++ enclose (needsParentheses value.precedence .not false) (text value)
  | select _ cond onTrue onFalse =>
    "select(" ++ text cond ++ ", " ++ text onTrue ++ ", " ++ text onFalse ++ ")"
  | ramp _ base stride lanes =>
    "ramp(" ++ text base ++ ", " ++ text stride ++ ", " ++ toString lanes ++ ")"
  | broadcast _ value lanes => "broadcast(" ++ text value ++ ", " ++ toString lanes ++ ")"
  | shuffle _ vectors indices =>
    "shuffle([" ++ ", ".intercalate (textList vectors) ++ "], [" ++
      ", ".intercalate (indices.map toString) ++ "])"
  | letIn _ name value body => "let " ++ name.name ++ " = " ++ text value ++ " in " ++ text body
  | call _ op args => op.name ++ "(" ++ ", ".intercalate (textList args) ++ ")"

/-- The printed form of each expression. -/
def textList : List Expr → List String
  | [] => []
  | expr :: rest => text expr :: textList rest

end

instance : ToString Expr := ⟨text⟩

/-- The printed form with the type: `x + 1: int32`. -/
def typedText (expr : Expr) : String := expr.text ++ ": " ++ expr.dtype.text

end IndexAlgebra.Expr
