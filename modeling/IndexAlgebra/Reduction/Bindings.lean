/-
This file holds the rules for bindings. A binding whose variable is not used is dropped, and a
value that is cheap or used only once takes the place of its variable.
-/
import IndexAlgebra.Expr.Substitution
import IndexAlgebra.Reduction.Rule

namespace IndexAlgebra.Reduction.Bindings

open IndexAlgebra.Expr

/-- `let x = v in b = b`, where `b` does not use `x` -/
def drop? : Expr → Option Expr
  | .letIn _ name _ body => if body.uses name then none else some body
  | _ => none

/-- `let x = 4 in x + y = 4 + y`, where the value is a constant or a variable, or where the body
uses `x` at most once -/
def expand? : Expr → Option Expr
  | .letIn _ name value body =>
    if value.isConst || value.asVariable?.isSome || body.countUses name ≤ 1 then
      some (body.substituteOne name value)
    else none
  | _ => none

/-- The rules of this file, in the order they are tried. -/
def rules : List Rule := [.pure .dropLet drop?, .pure .inlineLet expand?]

end IndexAlgebra.Reduction.Bindings
