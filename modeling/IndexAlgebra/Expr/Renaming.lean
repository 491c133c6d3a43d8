/-
This file renames bound variables apart: afterwards every binding introduces a variable of its
own, and no bound variable shares its name with a free one or with a reserved name. A binding
that is already apart from the others keeps its variable.
-/
import IndexAlgebra.Expr.Variables

namespace IndexAlgebra.Expr

/-- The bound variables in scope with the variables that stand for them, innermost first. -/
abbrev Renames := List (Variable × Variable)

/-- The variable that stands for a bound variable in scope. -/
def Renames.find? (renames : Renames) (name : Variable) : Option Variable :=
  (List.find? (fun rename => rename.1 = name) renames).map Prod.snd

/-- The variable that a binding introduces after renaming: its own if the name is free to take,
and otherwise the first numbered one that is. -/
def apartFrom (reserved taken : List String) (name : Variable) : Variable :=
  if taken.contains name.name || reserved.contains name.name then name.fresh (taken ++ reserved)
  else name

mutual

/-- The renamed expression and the names taken after it, from the variables in scope and the
names taken before it. -/
def renameFrom (reserved : List String) (renames : Renames) (taken : List String) :
    Expr → Expr × List String
  | expr@(var _ name) =>
    match renames.find? name with
    | some renamed => (if renamed = name then expr else renamed.expr, taken)
    | none => (expr, taken)
  | expr@(intConst ..) | expr@(floatConst ..) | expr@(boolConst ..) => (expr, taken)
  | cast dtype value =>
    let (value, taken) := renameFrom reserved renames taken value
    (cast dtype value, taken)
  | binary dtype op lhs rhs =>
    let (lhs, taken) := renameFrom reserved renames taken lhs
    let (rhs, taken) := renameFrom reserved renames taken rhs
    (binary dtype op lhs rhs, taken)
  | not dtype value =>
    let (value, taken) := renameFrom reserved renames taken value
    (not dtype value, taken)
  | select dtype cond onTrue onFalse =>
    let (cond, taken) := renameFrom reserved renames taken cond
    let (onTrue, taken) := renameFrom reserved renames taken onTrue
    let (onFalse, taken) := renameFrom reserved renames taken onFalse
    (select dtype cond onTrue onFalse, taken)
  | ramp dtype base stride lanes =>
    let (base, taken) := renameFrom reserved renames taken base
    let (stride, taken) := renameFrom reserved renames taken stride
    (ramp dtype base stride lanes, taken)
  | broadcast dtype value lanes =>
    let (value, taken) := renameFrom reserved renames taken value
    (broadcast dtype value lanes, taken)
  | shuffle dtype vectors indices =>
    let (vectors, taken) := renameListFrom reserved renames taken vectors
    (shuffle dtype vectors indices, taken)
  | letIn dtype name value body =>
    let (value, taken) := renameFrom reserved renames taken value
    let bound := apartFrom reserved taken name
    let (body, taken) := renameFrom reserved ((name, bound) :: renames) (bound.name :: taken) body
    (letIn dtype bound value body, taken)
  | call dtype op args =>
    let (args, taken) := renameListFrom reserved renames taken args
    (call dtype op args, taken)

/-- The renamed expressions, from left to right. -/
def renameListFrom (reserved : List String) (renames : Renames) (taken : List String) :
    List Expr → List Expr × List String
  | [] => ([], taken)
  | expr :: rest =>
    let (expr, taken) := renameFrom reserved renames taken expr
    let (rest, taken) := renameListFrom reserved renames taken rest
    (expr :: rest, taken)

end

/-- The expression with its bound variables renamed apart from each other, from its free
variables and from the reserved names. -/
def renameLets (expr : Expr) (reserved : List String) : Expr :=
  if expr.hasLet then
    (renameFrom reserved [] (expr.freeVariables.map Variable.name) expr).1
  else expr

end IndexAlgebra.Expr
