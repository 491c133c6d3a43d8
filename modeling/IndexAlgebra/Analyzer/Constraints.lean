/-
This file holds constraint scopes. While a scope is active its condition is taken to be true.
Each part of the condition between `&&` is known to be true then; a part that compares an
expression with a constant also bounds the expression, and one that states a remainder gives its
congruence class. Leaving a scope restores what was known before it.
-/
import IndexAlgebra.Reduction.Simplifier

namespace IndexAlgebra

/-! ### Facts -/

namespace Expr

/-- The parts of a condition between `&&`, from left to right. -/
def conjuncts : Expr → List Expr
  | binary dtype op lhs rhs =>
    if op = .and then conjuncts lhs ++ conjuncts rhs else [binary dtype op lhs rhs]
  | cond => [cond]

/-- The expression whose remainder by a constant a condition states, and its class:
`floormod(i, 4) == 1` states that `i` is one more than a multiple of four. -/
def asCongruence? (cond : Expr) : Option (Expr × Congruence) := do
  let (lhs, rhs) ← cond.operands? .eq
  let (remainder, value) ←
    match lhs.asInt?, rhs.asInt? with
    | none, some value => some (lhs, value)
    | some value, none => some (rhs, value)
    | _, _ => none
  let (op, dividend, divisor) ← remainder.asBinary?
  guard (op == .truncMod || op == .floorMod)
  let divisor ← divisor.asInt?
  guard (divisor ≠ 0)
  return (dividend, .ofInts divisor value)

end Expr

namespace Fact

/-- The facts that a condition states. A truth constant states none. -/
def ofConjunct (cond : Expr) : List Fact :=
  let bounds := (Reduction.Conditions.asRange? cond).map fun (target, range) => bound target range
  let classes := cond.asCongruence?.map fun (target, residues) => congruence target residues
  let truths := if cond.asBool?.isSome then none else some (truth cond)
  bounds.toList ++ classes.toList ++ truths.toList

end Fact

namespace Analyzer

/-- The facts that follow from a condition. They are read from the condition as it is written
and as it is simplified, since either may have parts that the other does not show. -/
def factsOf (analyzer : Analyzer) (cond : Expr) : List Fact :=
  let conjuncts := cond.conjuncts ++ (analyzer.reduce cond).conjuncts
  (conjuncts.filter fun part => part.asBool? != some true).eraseDups.flatMap Fact.ofConjunct

/-! ### Scopes -/

/-- Enters a scope with a condition, or with none. The first result is the token that the scope
is left by. -/
def enterScope (analyzer : Analyzer) (cond? : Option Expr) : Nat × Analyzer :=
  let facts :=
    match cond? with
    | some cond => analyzer.factsOf (analyzer.known.isolate cond)
    | none => []
  (analyzer.nextToken,
    { analyzer with
      known := analyzer.known.enterScope analyzer.nextToken facts
      nextToken := analyzer.nextToken + 1 })

/-- Leaves the innermost scope, which has to be the one with the token. -/
def exitScope (analyzer : Analyzer) (token : Nat) : Except Fault Analyzer :=
  let scopes := analyzer.known.scopes
  match scopes.getLast? with
  | none => .error { cause := .inactiveScope token }
  | some innermost =>
    if innermost.token = token then
      .ok { analyzer with known := analyzer.known.leaveScope token }
    else if scopes.any fun scope => scope.token == token then
      .error { cause := .scopeOrder token innermost.token }
    else .error { cause := .inactiveScope token }

/-- Leaves a scope and every scope inside it. Nothing happens if the scope is not active. -/
def exitThrough (analyzer : Analyzer) (token : Nat) : Analyzer :=
  { analyzer with known := analyzer.known.leaveScope token }

end Analyzer

end IndexAlgebra
