/-
This file simplifies an expression with the reduction rules. The operands of a node are
simplified first. Then the first rule that applies to the node replaces it, the operands of the
new form are simplified, and so on until no rule applies.

The rules have no common measure: some make an expression larger, and two of them may undo each
other. Every form that a node takes is therefore remembered, a form that comes back ends the
reduction of the node, and so does a limit on the number of forms. Fuel bounds the depth of the
recursion, and a run that is out of fuel has no result.

Rules that compare two expressions simplify their difference. The steps of such a nested run
are not reported, and its results are not kept.
-/
import IndexAlgebra.Analyzer
import IndexAlgebra.Expr.Substitution
import IndexAlgebra.Knowledge.Congruences
import IndexAlgebra.Reduction.Bindings
import IndexAlgebra.Reduction.Choices
import IndexAlgebra.Reduction.Comparisons
import IndexAlgebra.Reduction.Conditions
import IndexAlgebra.Reduction.Conversions
import IndexAlgebra.Reduction.Extrema
import IndexAlgebra.Reduction.Identities
import IndexAlgebra.Reduction.Lanes
import IndexAlgebra.Reduction.Quotients

namespace IndexAlgebra

/-! ### The rules of a node -/

namespace Reduction

/-- The rules for the operator of a binary node. Those of arithmetic are for integers. -/
def rulesOfOp (dtype : DataType) (op : BinaryOp) : List Rule :=
  let arithmetic :=
    match op with
    | .add => Sums.sumRules
    | .sub => Sums.differenceRules
    | .mul => Sums.productRules
    | .truncDiv | .floorDiv => Quotients.quotientRules
    | .truncMod | .floorMod => Quotients.remainderRules
    | .min | .max => Extrema.rules
    | _ => []
  match op.opClass with
  | .arithmetic => if dtype.isInteger then arithmetic else []
  | .comparison => Comparisons.rules
  | .logical => Conditions.rules

/-- The rules for the kind of a node. -/
def rulesOfKind : Expr → List Rule
  | .binary dtype op _ _ => rulesOfOp dtype op
  | .not .. => Conditions.rules
  | .select .. | .call .. => Choices.rules
  | .cast .. => Conversions.rules
  | .letIn .. => Bindings.rules
  | _ => []

/-- The rules for a node, in the order they are tried. -/
def rulesFor (expr : Expr) : List Rule :=
  Identities.rules ++ (if expr.dtype.isVector then Lanes.rules else []) ++
    Conditions.knownRules ++ rulesOfKind expr

end Reduction

namespace Evidence

/-- The relation of an integer to zero. -/
def relationToZero (evidence : Evidence) (expr : Expr) : Relation :=
  match expr.asInt? with
  | some value => .ofOrdering (compare value 0)
  | none =>
    let bound := evidence.bound expr
    if bound.asPoint? = some 0 then .equal
    else if bound.isNegative then .less
    else if bound.isPositive then .greater
    else
      let neverZero := !(evidence.congruence expr).contains 0 || !bound.contains 0
      match bound.isNonPositive, bound.isNonNegative, neverZero with
      | true, _, true => .less
      | _, true, true => .greater
      | true, _, false => .lessOrEqual
      | _, true, false => .greaterOrEqual
      | false, false, true => .notEqual
      | false, false, false => .unknown

end Evidence

/-- What a rule may consult when this much is known. -/
def Knowledge.evidence (known : Knowledge) : Evidence :=
  ⟨known.inferBound, known.inferCongruence, Reduction.Conditions.asRange?, known.truths⟩

namespace Reduction

/-! ### Runs -/

/-- What a run of the simplifier has found so far. -/
structure Progress where
  /-- The simplified form of expressions met outside nested runs, the latest first. -/
  results : List (Expr × Expr) := []
  /-- The steps taken outside nested runs, the latest first. -/
  steps : List Step := []

/-- A run of the simplifier, which has no result when it is out of fuel. -/
abbrev Run := StateT Progress Option

/-- Reports a step, unless the run is nested. -/
def report (depth : Nat) (step : Step) : Run Unit :=
  if depth = 0 then modify fun progress => { progress with steps := step :: progress.steps }
  else pure ()

/-- Keeps the simplified form of an expression, which is its own simplified form, unless the run
is nested. -/
def keep (depth : Nat) (expr result : Expr) : Run Unit :=
  if depth = 0 then
    modify fun progress =>
      let results := (expr, result) :: progress.results
      { progress with
        results :=
          if (results.lookup result).isSome then results else (result, result) :: results }
  else pure ()

/-- The relation of two expressions, from their difference as `nested` simplifies it. -/
def relate (evidence : Evidence) (nested : Expr → Run Expr) (lhs rhs : Expr) : Run Relation :=
  if !lhs.dtype.isInteger || decide (lhs.dtype ≠ rhs.dtype) then pure .unknown
  else if lhs = rhs then pure .equal
  else
    match lhs.asInt?, rhs.asInt? with
    | some left, some right => pure (.ofOrdering (compare left right))
    | _, _ =>
      match Expr.binary? .sub lhs rhs with
      | none => pure .unknown
      | some difference => evidence.relationToZero <$> nested difference

/-- The result of a rule, if it applies. -/
def applyRule (evidence : Evidence) (nested : Expr → Run Expr) (depth : Nat) (expr : Expr) :
    Rule → Run (Option Expr)
  | .plain step apply =>
    match apply evidence expr with
    | some result => do
      report depth step
      return some result
    | none => return none
  | .counted step fits apply =>
    if fits expr then do
      report depth step
      return apply expr
    else return none
  | .comparing step operands conclude =>
    match operands expr with
    | none => return none
    | some (lhs, rhs) => do
      match conclude (← relate evidence nested lhs rhs) expr with
      | some result =>
        report depth step
        return some result
      | none => return none

/-- The result of the first rule that applies, if one does. -/
def applyFirst (evidence : Evidence) (nested : Expr → Run Expr) (depth : Nat) (expr : Expr) :
    List Rule → Run (Option Expr)
  | [] => return none
  | rule :: rest => do
    match ← applyRule evidence nested depth expr rule with
    | some result => return some result
    | none => applyFirst evidence nested depth expr rest

/-- The node with its operands simplified, from left to right. -/
def visitChildren (visit : Expr → Run Expr) (expr : Expr) : Run Expr :=
  expr.withChildren <$> expr.children.mapM visit

/-- The last form of a node. A form is replaced until there is no next one or the next one has
been there before, and after the given number of replacements once more at most. -/
def settle (next? : Expr → Run (Option Expr)) : Nat → List Expr → Expr → Run Expr
  | remaining, history, current => do
    match ← next? current with
    | none => return current
    | some next =>
      if next ∈ history then return current
      else
        match remaining with
        | 0 => return next
        | remaining + 1 => settle next? remaining (next :: history) next

/-- The simplified form of an expression, in a run that is nested to the given depth. -/
def visit (limits : Limits) (evidence : Evidence) : Nat → Nat → Expr → Run Expr
  | 0, _, _ => failure
  | fuel + 1, depth, expr => do
    match (← get).results.lookup expr with
    | some result => return result
    | none =>
      let nested (inner : Expr) : Run Expr :=
        if limits.maxRecursionDepth ≤ depth + 1 then pure inner
        else visit limits evidence fuel (depth + 1) inner
      let next? (current : Expr) : Run (Option Expr) := do
        match ← applyFirst evidence nested depth current (rulesFor current) with
        | none => return none
        | some next => some <$> visitChildren (visit limits evidence fuel depth) next
      let first ← visitChildren (visit limits evidence fuel depth) expr
      let result ← settle next? limits.maxSteps [first] first
      keep depth expr result
      return result

/-- Fuel for an expression. A binding may put its value in many places, so that every node may
double how deep the recursion goes, and every nesting of proofs takes one step more. -/
def fuelFor (limits : Limits) (expr : Expr) : Nat :=
  twoPow expr.nodeCount + limits.maxRecursionDepth + 1

end Reduction

/-! ### Simplification by reduction -/

namespace Analyzer

/-- The expression that is reduced: bound variables are renamed apart from those that
something is known about, and variables that stand for a value are replaced by it. -/
def prepare (analyzer : Analyzer) (expr : Expr) : Expr :=
  (analyzer.known.isolate expr).substitute analyzer.known.values.find?

/-- The simplified form of an expression and the steps that led to it. -/
def reduceWithSteps (analyzer : Analyzer) (expr : Expr) : Expr × List Step :=
  let prepared := analyzer.prepare expr
  let run := Reduction.visit analyzer.limits analyzer.known.evidence
    (Reduction.fuelFor analyzer.limits prepared) 0 prepared
  match run.run {} with
  | some (result, progress) => (result, progress.steps.reverse)
  | none => (prepared, [])

/-- The expression, simplified with the reduction rules. -/
def reduce (analyzer : Analyzer) (expr : Expr) : Expr := (analyzer.reduceWithSteps expr).1

end Analyzer

end IndexAlgebra
