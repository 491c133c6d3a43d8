/-
This file holds the analyzer: what is known, and the limits of the work done to answer a query.
-/
import IndexAlgebra.Knowledge

namespace IndexAlgebra

/-- Limits of the work done to answer a query. -/
structure Limits where
  /-- How often the form of one node is replaced before the last form is taken. -/
  maxSteps : Nat := 64
  /-- How deep proofs are nested that the rules ask for. -/
  maxRecursionDepth : Nat := 8
  /-- How many products of terms are made when two sums are multiplied. -/
  maxCanonicalTerms : Nat := 64
  /-- How many rounds of simplification there are unless a query says otherwise. -/
  defaultSimplifySteps : Nat := 2
  deriving DecidableEq, Repr, Inhabited

/-- The state that queries are answered in. -/
structure Analyzer where
  limits : Limits := {}
  known : Knowledge := {}
  /-- The token of the next constraint scope. -/
  nextToken : Nat := 0
  deriving Inhabited

end IndexAlgebra
