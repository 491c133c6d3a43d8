/-
This file holds the errors of the library. An error states its cause, and it carries the text
it is about together with the regions of that text, so that a report can point at them.
-/
import IndexAlgebra.DataType

namespace IndexAlgebra

/-- Why an expression could not be built, or why the analyzer refused a request. -/
inductive Cause where
  /-- The operands of a node have different types. -/
  | mismatchedTypes (op : String) (lhs rhs : DataType)
  /-- The operands of a node have different counts of lanes. -/
  | mismatchedLanes (node : String) (lhs rhs : Nat)
  /-- An operand that must be a truth value is not one. -/
  | nonBoolean (node : String) (found : DataType)
  /-- The type of a call to an external function was left open. -/
  | untypedCall
  /-- A variable that is bound already was bound to something else. -/
  | bindingConflict (name existing new : String)
  /-- A variable that has a bound already was given another one. -/
  | boundConflict (name existing new : String)
  /-- A constraint scope was left while a later one was still active. -/
  | scopeOrder (token innermost : Nat)
  /-- A constraint scope was left that is not active. -/
  | inactiveScope (token : Nat)
  deriving DecidableEq, Repr

/-- An error: its cause, the text it is about, and the regions of the text, each from its first
byte to the byte after its last. -/
structure Fault where
  cause : Cause
  source : String := ""
  spans : List (Nat × Nat) := []
  deriving DecidableEq, Repr

namespace Cause

/-- A phrase that stands out on a terminal. -/
def highlight (phrase : String) : String := "\x1b[38;2;52;235;152m" ++ phrase ++ "\x1b[0m"

/-- The sentence that describes the cause. -/
def detail : Cause → String
  | mismatchedTypes op lhs rhs =>
    "mismatched operand types for `" ++ op ++ "`: `" ++ lhs.text ++ "` and `" ++ rhs.text ++ "`"
  | mismatchedLanes node lhs rhs =>
    "mismatched lane counts for `" ++ node ++ "`: " ++ toString lhs ++ " and " ++ toString rhs
  | nonBoolean node found =>
    "`" ++ node ++ "` expects boolean operands, found `" ++ found.text ++ "`"
  | untypedCall => "opaque calls need an explicit result type"
  | bindingConflict name existing _ =>
    "`" ++ name ++ "` is already bound to `" ++ existing ++ "`"
  | boundConflict name existing new =>
    "`" ++ name ++ "` already has the bound " ++ existing ++ ", which conflicts with " ++ new
  | scopeOrder token innermost =>
    "constraint scope " ++ toString token ++ " exited while scope " ++ toString innermost ++
      " is still active"
  | inactiveScope token => "constraint scope " ++ toString token ++ " is not active"

/-- What is said about each region of the text. -/
def labels : Cause → List String
  | mismatchedTypes _ lhs rhs =>
    ["this is of type `" ++ lhs.text ++ "`", "this is of type `" ++ rhs.text ++ "`"]
  | mismatchedLanes _ lhs rhs =>
    ["this has " ++ toString lhs ++ " lane(s)", "this has " ++ toString rhs ++ " lane(s)"]
  | nonBoolean .. => ["this operand"]
  | bindingConflict .. => ["this variable", "", "the new binding"]
  | boundConflict .. => ["this variable"]
  | untypedCall | scopeOrder .. | inactiveScope .. => []

/-- How the error can be avoided. -/
def help? : Cause → Option String
  | mismatchedTypes .. => some "insert a cast so that both operands have the same data type"
  | mismatchedLanes .. => some "broadcast the scalar operand to the vector width"
  | nonBoolean .. => some "compare the value against zero to obtain a boolean"
  | bindingConflict .. =>
    some ("pass " ++ highlight "allow_override = true" ++ " to replace the binding")
  | boundConflict .. =>
    some ("pass " ++ highlight "allow_override = true" ++ " to replace the bound")
  | scopeOrder .. =>
    some "constraint scopes must be exited in the reverse order they were entered"
  | untypedCall | inactiveScope .. => none

end Cause

/-- The message of an error: its cause, and the text it is about if there is one. -/
def Fault.message (fault : Fault) : String :=
  if fault.source.isEmpty then fault.cause.detail
  else fault.cause.detail ++ " (in `" ++ fault.source ++ "`)"

end IndexAlgebra
