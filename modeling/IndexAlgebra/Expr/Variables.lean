/-
This file walks expressions: their nodes from the leaves to the root, the variables they
mention, and the variables that occur free in them.
-/
import IndexAlgebra.Expr

namespace IndexAlgebra.Expr

/-! ### Nodes -/

mutual

/-- Every node, the operands from left to right before the node they belong to. -/
def postOrder : Expr → List Expr
  | expr@(var ..) | expr@(intConst ..) | expr@(floatConst ..) | expr@(boolConst ..) => [expr]
  | expr@(cast _ value) | expr@(not _ value) | expr@(broadcast _ value _) =>
    postOrder value ++ [expr]
  | expr@(binary _ _ lhs rhs) => postOrder lhs ++ postOrder rhs ++ [expr]
  | expr@(select _ cond onTrue onFalse) =>
    postOrder cond ++ postOrder onTrue ++ postOrder onFalse ++ [expr]
  | expr@(ramp _ base stride _) => postOrder base ++ postOrder stride ++ [expr]
  | expr@(shuffle _ vectors _) => postOrderList vectors ++ [expr]
  | expr@(letIn _ _ value body) => postOrder value ++ postOrder body ++ [expr]
  | expr@(call _ _ args) => postOrderList args ++ [expr]

/-- The nodes of each expression in turn. -/
def postOrderList : List Expr → List Expr
  | [] => []
  | expr :: rest => postOrder expr ++ postOrderList rest

end

theorem self_mem_postOrder (expr : Expr) : expr ∈ expr.postOrder := by
  cases expr <;> simp [postOrder]

/-- The number of nodes of the tree. -/
def nodeCount (expr : Expr) : Nat := expr.postOrder.length

theorem nodeCount_pos (expr : Expr) : 0 < expr.nodeCount :=
  List.length_pos_of_mem expr.self_mem_postOrder

/-- The node introduces a variable. -/
def isLet : Expr → Bool
  | letIn .. => true
  | _ => false

/-- Some node introduces a variable. -/
def hasLet (expr : Expr) : Bool := expr.postOrder.any isLet

/-! ### Variables -/

/-- The variable of every variable node, free or bound. -/
def mentions (expr : Expr) : List Variable := expr.postOrder.filterMap asVariable?

/-- Some node is the variable, free or bound. -/
def uses (expr : Expr) (name : Variable) : Bool := expr.mentions.contains name

/-- The number of nodes that are the variable, free or bound. -/
def countUses (expr : Expr) (name : Variable) : Nat := expr.mentions.count name

mutual

/-- The variable of every free variable node. A binding hides its variable in its body alone. -/
def freeOccurrences : Expr → List Variable
  | var _ name => [name]
  | intConst .. | floatConst .. | boolConst .. => []
  | cast _ value | not _ value | broadcast _ value _ => freeOccurrences value
  | binary _ _ lhs rhs => freeOccurrences lhs ++ freeOccurrences rhs
  | select _ cond onTrue onFalse =>
    freeOccurrences cond ++ freeOccurrences onTrue ++ freeOccurrences onFalse
  | ramp _ base stride _ => freeOccurrences base ++ freeOccurrences stride
  | shuffle _ vectors _ => freeOccurrencesList vectors
  | letIn _ name value body =>
    freeOccurrences value ++ (freeOccurrences body).filter (· ≠ name)
  | call _ _ args => freeOccurrencesList args

/-- The free variable nodes of each expression in turn. -/
def freeOccurrencesList : List Expr → List Variable
  | [] => []
  | expr :: rest => freeOccurrences expr ++ freeOccurrencesList rest

end

/-- The free variables, in the order of their first occurrence. -/
def freeVariables (expr : Expr) : List Variable := expr.freeOccurrences.eraseDups

end IndexAlgebra.Expr
