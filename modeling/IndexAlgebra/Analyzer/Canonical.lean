/-
This file brings an expression to its canonical form: its sums are flattened, and it is reduced. The
recursion of flattening is not bounded by the expression, since a dividend that is put together again is
flattened once more. It ends all the same, and so fuel that is enough is found by trying.
-/
import IndexAlgebra.Proofs.FlatteningEnds

namespace IndexAlgebra

namespace Flattening

/-- The first fuel that is enough, where each one that is tried is more than twice the one before. -/
def enoughFuel (setting : Setting) (keeps : setting.divide.KeepsProducts) (expr : Expr)
    (fuel : Nat) : Nat :=
  if isEnough : (flatten? setting fuel expr).isSome then fuel
  else enoughFuel setting keeps expr (2 * fuel + 1)
termination_by (isFlattened keeps expr).choose - fuel
decreasing_by
  obtain ⟨result, isResult⟩ := (isFlattened keeps expr).choose_spec
  have less := lt_of_outOfFuel isResult isEnough
  omega

/-- Fuel for an expression. A flattened product has at most `maxTerms` terms, so that a dividend
that is rebuilt is seldom deeper than the terms of every node of the expression together, and
divisions are nested no deeper than its nodes. Where that is not enough, more is tried, which ends
where sums are divided exactly. -/
def fuelFor (setting : Setting) (expr : Expr) : Nat :=
  let first := 100 * (setting.maxTerms + 10) * (expr.nodeCount + 10) * (expr.nodeCount + 10)
  if (flatten? setting first expr).isSome then first
  else
    enoughFuel { setting with divide := SumForm.divideExact? } SumForm.divideExact?_keepsProducts
      expr first

/-- The expression with its sums flattened. -/
def flatten (setting : Setting) (expr : Expr) : Expr :=
  (flatten? setting (fuelFor setting expr) expr).getD expr

end Flattening

namespace Analyzer

/-! ### Canonical form -/

/-- An expression after at most the given number of steps, and before if a step changes nothing. -/
def repeatStep (step : Expr → Expr) : Nat → Expr → Expr
  | 0, expr => expr
  | rounds + 1, expr =>
    let next := step expr
    if next = expr then expr else repeatStep step rounds next

/-- What flattening takes from the analyzer. -/
def flattening (analyzer : Analyzer) : Flattening.Setting :=
  ⟨analyzer.known.inferBound, SumForm.divideExact?, analyzer.limits.maxCanonicalTerms⟩

/-- The expression with its sums flattened. -/
def flatten (analyzer : Analyzer) (expr : Expr) : Expr := Flattening.flatten analyzer.flattening expr

/-- One round: flattening and reduction, unless reduction alone gives a smaller expression. -/
def canonicalRound (analyzer : Analyzer) (expr : Expr) : Expr :=
  let canonical := analyzer.reduce (analyzer.flatten expr)
  let reduced := analyzer.reduce expr
  if reduced.nodeCount < canonical.nodeCount then reduced else canonical

/-- The canonical form after at most the given number of rounds, and after one at least. -/
def canonical (analyzer : Analyzer) (rounds : Nat) (expr : Expr) : Expr :=
  repeatStep analyzer.canonicalRound (max rounds 1) (analyzer.known.isolate expr)

/-- The expression after rounds of reduction and flattening, as many as are asked for or as the
limits say, and one at least. -/
def simplify (analyzer : Analyzer) (rounds? : Option Nat) (expr : Expr) : Expr :=
  repeatStep (fun expr => analyzer.canonical 1 (analyzer.reduce expr))
    (max (rounds?.getD analyzer.limits.defaultSimplifySteps) 1) expr

end Analyzer

end IndexAlgebra
