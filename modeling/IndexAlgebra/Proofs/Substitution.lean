/-
This file proves what replacing the free variables of an expression does to its shape. Constants and
vectors of one constant have no variables to replace, and variables in the place of variables keep
the number of nodes, so that a renamed body can be walked as deep as the body that was renamed.
-/
import IndexAlgebra.Expr.Substitution
import IndexAlgebra.Proofs.FreshName
import IndexAlgebra.Proofs.Typing
import Mathlib.Algebra.Order.BigOperators.Group.List
import Mathlib.Algebra.Order.Ring.Nat
import Mathlib.Data.List.Basic

namespace IndexAlgebra.Expr

/-! ### Nodes and their operands -/

theorem children_withChildren {expr : Expr} {children : List Expr}
    (length : children.length = expr.children.length) :
    (expr.withChildren children).children = children := by
  cases expr <;> simp only [Expr.children, List.length_cons, List.length_nil, zero_add,
    Nat.reduceAdd, List.length_eq_zero_iff, List.length_eq_one_iff, List.length_eq_two,
    List.length_eq_three] at length
  case shuffle | call => rfl
  case var | intConst | floatConst | boolConst =>
    subst length
    rfl
  case cast | not | broadcast =>
    obtain ⟨value, rfl⟩ := length
    rfl
  case binary | ramp | letIn =>
    obtain ⟨first, second, rfl⟩ := length
    rfl
  case select =>
    obtain ⟨first, second, third, rfl⟩ := length
    rfl

/-- The nodes of an expression are its root and those of its operands. -/
theorem nodeCount_eq (expr : Expr) :
    expr.nodeCount = (expr.children.map nodeCount).sum + 1 := by
  have list : ∀ exprs : List Expr, (postOrderList exprs).length = (exprs.map nodeCount).sum := by
    intro exprs
    induction exprs with
    | nil => rfl
    | cons first rest inductionHypothesis =>
      rw [postOrderList, List.length_append, inductionHypothesis]
      rfl
  cases expr <;> simp [nodeCount, postOrder, children, list, Nat.add_assoc]

theorem nodeCount_child_lt {expr child : Expr} (isChild : child ∈ expr.children) :
    child.nodeCount < expr.nodeCount := by
  rw [nodeCount_eq expr]
  exact Nat.lt_succ_of_le (List.single_le_sum (fun _ _ => Nat.zero_le _) _ (List.mem_map_of_mem isChild))

theorem nodeCount_withChildren {expr : Expr} {operands : List Expr}
    (counts : operands.map nodeCount = expr.children.map nodeCount) :
    (expr.withChildren operands).nodeCount = expr.nodeCount := by
  have length : operands.length = expr.children.length := by
    simpa using congrArg List.length counts
  rw [nodeCount_eq, nodeCount_eq expr, children_withChildren length, counts]

/-- A variable that occurs free in an operand occurs free in the node, unless the node binds it. -/
theorem mem_freeOccurrences_of_child {name : Variable} {expr child : Expr}
    (notLet : expr.isLet = false) (isChild : child ∈ expr.children)
    (occurs : name ∈ child.freeOccurrences) : name ∈ expr.freeOccurrences := by
  cases expr with
  | letIn => cases notLet
  | shuffle dtype vectors indices =>
    exact mem_freeOccurrencesList.mpr ⟨child, isChild, occurs⟩
  | call dtype op args => exact mem_freeOccurrencesList.mpr ⟨child, isChild, occurs⟩
  | _ =>
    simp only [children, List.mem_cons, List.not_mem_nil, or_false] at isChild
    all_goals
      simp only [freeOccurrences, List.mem_append]
      grind

/-! ### The walk -/

theorem not_uses_iff {expr : Expr} {name : Variable} :
    expr.uses name = false ↔ name ∉ expr.mentions := by
  simp [uses]

/-- A name that is not among those of some expressions belongs to no variable they use. -/
theorem not_uses_of_not_mem_namesIn {exprs : List Expr} {name : Variable}
    (free : name.name ∉ namesIn exprs) {expr : Expr} (member : expr ∈ exprs) :
    expr.uses name = false :=
  not_uses_iff.mpr fun mentioned =>
    free (List.mem_flatMap.mpr ⟨expr, member, List.mem_map_of_mem mentioned⟩)

/-- What stands in the place of a binding is again a binding: of the same variable if nothing that
arrives in the body uses it, and otherwise of another one, in a body that is renamed first. -/
theorem substituteWithin_letIn (fuel : Nat) (replacement : Replacement) (hidden : List Variable)
    (dtype : DataType) (name : Variable) (value body : Expr) :
    ((∀ arriving ∈ incoming replacement hidden name body, arriving.uses name = false) ∧
      substituteWithin (fuel + 1) replacement hidden (letIn dtype name value body) =
        letIn dtype name (substituteWithin fuel replacement hidden value)
          (substituteWithin fuel replacement (name :: hidden) body)) ∨
    ∃ fresh, (∀ expr ∈ body :: incoming replacement hidden name body, expr.uses fresh = false) ∧
      fresh.dtype = name.dtype ∧
      substituteWithin (fuel + 1) replacement hidden (letIn dtype name value body) =
        letIn dtype fresh (substituteWithin fuel replacement hidden value)
          (substituteWithin fuel replacement (fresh :: hidden)
            (substituteWithin fuel (.single name fresh.expr) [] body)) := by
  rw [substituteWithin]
  dsimp only
  split
  next captured =>
    refine .inr ⟨name.fresh (namesIn (body :: incoming replacement hidden name body)),
      fun expr member => not_uses_of_not_mem_namesIn ?_ member, rfl, rfl⟩
    exact Variable.name_fresh_not_mem name _
  next free => exact .inl ⟨by simpa using free, rfl⟩

theorem substituteWithin_of_not_isLet (fuel : Nat) (replacement : Replacement)
    (hidden : List Variable) {expr : Expr} (notLet : expr.isLet = false)
    (notVariable : expr.asVariable? = none) :
    substituteWithin (fuel + 1) replacement hidden expr =
      expr.mapChildren (substituteWithin fuel replacement hidden) := by
  cases expr <;> simp_all [substituteWithin, isLet, asVariable?]

/-- A variable is replaced by a single node if it is renamed. -/
theorem single_expr_nodeCount (name renamed : Variable) :
    ∀ other value, Replacement.single name renamed.expr other = some value →
      value.nodeCount = 1 := by
  intro other value replaced
  obtain ⟨-, equal⟩ := Option.ite_none_right_eq_some.mp replaced
  rw [← Option.some.inj equal]
  rfl

/-- Replacing variables by single nodes keeps the number of nodes. -/
theorem nodeCount_substituteWithin {replacement : Replacement}
    (single : ∀ name value, replacement name = some value → value.nodeCount = 1) (fuel : Nat)
    (hidden : List Variable) (expr : Expr) :
    (substituteWithin fuel replacement hidden expr).nodeCount = expr.nodeCount := by
  induction fuel generalizing replacement hidden expr with
  | zero => rfl
  | succ fuel inductionHypothesis =>
    cases expr with
    | var dtype name =>
      rw [substituteWithin]
      split
      · rfl
      · cases found : replacement name with
        | none => rfl
        | some value => exact single name value found
    | letIn dtype name value body =>
      have count : ∀ (dtype : DataType) (name : Variable) (value body : Expr),
          (letIn dtype name value body).nodeCount = value.nodeCount + body.nodeCount + 1 := by
        intro dtype name value body
        simp [nodeCount_eq (letIn dtype name value body), children]
      rcases substituteWithin_letIn fuel replacement hidden dtype name value body with
        ⟨-, walked⟩ | ⟨fresh, -, -, walked⟩
      · rw [walked, count, count, inductionHypothesis single, inductionHypothesis single]
      · rw [walked, count, count, inductionHypothesis single, inductionHypothesis single,
          inductionHypothesis (single_expr_nodeCount name fresh)]
    | _ =>
      rw [substituteWithin_of_not_isLet fuel replacement hidden rfl rfl]
      refine nodeCount_withChildren ?_
      rw [List.map_map]
      exact List.map_congr_left fun child _ => inductionHypothesis single hidden child

end IndexAlgebra.Expr
