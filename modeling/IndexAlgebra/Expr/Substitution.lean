/-
This file replaces the free variables of an expression, all at once. A binding whose variable
occurs in what replaces a variable of its body is renamed first, so that no replacement is
captured.
-/
import IndexAlgebra.Expr.Equality
import IndexAlgebra.Expr.Variables

namespace IndexAlgebra.Expr

/-- The replacement of each variable that has one. -/
abbrev Replacement := Variable → Option Expr

/-- The replacement of a single variable. -/
def Replacement.single (name : Variable) (value : Expr) : Replacement :=
  fun other => if other = name then some value else none

/-- The expressions that replace a variable in the body of a binding. -/
def incoming (replacement : Replacement) (hidden : List Variable) (name : Variable)
    (body : Expr) : List Expr :=
  (body.freeVariables.filter fun free => free ≠ name && !hidden.contains free).filterMap replacement

/-- The names that a renamed binding must not take: those mentioned in its body and in what
replaces a variable there. -/
def namesIn (exprs : List Expr) : List String :=
  exprs.flatMap fun expr => expr.mentions.map Variable.name

/-- The expression with its free variables replaced, apart from the hidden ones. The depth of
the walk is at most `fuel`, for which the number of nodes is enough: a renamed body has as many
nodes as before. -/
def substituteWithin : Nat → Replacement → List Variable → Expr → Expr
  | 0, _, _, expr => expr
  | fuel + 1, replacement, hidden, expr =>
    match expr with
    | var _ name => if hidden.contains name then expr else (replacement name).getD expr
    | letIn dtype name value body =>
      let value := substituteWithin fuel replacement hidden value
      let arriving := incoming replacement hidden name body
      if arriving.any (·.uses name) then
        let fresh := name.fresh (namesIn (body :: arriving))
        let renamed := substituteWithin fuel (.single name fresh.expr) [] body
        letIn dtype fresh value (substituteWithin fuel replacement (fresh :: hidden) renamed)
      else letIn dtype name value (substituteWithin fuel replacement (name :: hidden) body)
    | _ => expr.mapChildren (substituteWithin fuel replacement hidden)

/-- The expression with every free variable that has a replacement replaced by it. -/
def substitute (expr : Expr) (replacement : Replacement) : Expr :=
  substituteWithin expr.nodeCount replacement [] expr

/-- The expression with every free occurrence of one variable replaced. -/
def substituteOne (expr : Expr) (name : Variable) (value : Expr) : Expr :=
  expr.substitute (.single name value)

end IndexAlgebra.Expr
