import IndexAlgebra.Analyzer.Bindings
import IndexAlgebra.Analyzer.Constraints
import IndexAlgebra.Analyzer.InPlace
import IndexAlgebra.Analyzer.Proving
import IndexAlgebra.Evaluation
import IndexAlgebra.Expr.Serial
import IndexAlgebra.Tree.Json
import IndexAlgebra.Proofs.FreshName
import IndexAlgebra.Proofs.Renaming
import IndexAlgebra.Proofs.Isolation
import IndexAlgebra.Proofs.Reading
import IndexAlgebra.Proofs.Bound
import IndexAlgebra.Proofs.InferredBound
import IndexAlgebra.Proofs.Binding
import IndexAlgebra.Proofs.Scopes
import IndexAlgebra.Proofs.ScopedBinding
import IndexAlgebra.Proofs.Lanes
import IndexAlgebra.Proofs.RuleForms
import IndexAlgebra.Proofs.Assumptions
import IndexAlgebra.Proofs.Congruence
import IndexAlgebra.Proofs.Congruence.Arithmetic
import IndexAlgebra.Proofs.Congruence.WideWords
import IndexAlgebra.Proofs.Congruence.Lattice
import IndexAlgebra.Proofs.InferredCongruence
import IndexAlgebra.Proofs.ExactValues
import IndexAlgebra.Proofs.Proving
import IndexAlgebra.Proofs.Meaning
import IndexAlgebra.Proofs.Interval
import IndexAlgebra.Proofs.InferredInterval
import IndexAlgebra.Proofs.Order
import IndexAlgebra.Proofs.SumForm
import IndexAlgebra.Proofs.SumExpr
import IndexAlgebra.Proofs.SumDivision
import IndexAlgebra.Proofs.SumComparison
import IndexAlgebra.Proofs.Replacement
import IndexAlgebra.Proofs.Flattening
import IndexAlgebra.Proofs.ScopeStack
import IndexAlgebra.Proofs.Substitution
import IndexAlgebra.Proofs.Load
import IndexAlgebra.Proofs.Coherence
import IndexAlgebra.Proofs.StandsFor
import IndexAlgebra.Proofs.Fits.Identities
import IndexAlgebra.Proofs.Fits.Lanes
import IndexAlgebra.Proofs.Fits.Sums
import IndexAlgebra.Proofs.Fits.Quotients
import IndexAlgebra.Proofs.Fits.Comparisons
import IndexAlgebra.Proofs.Fits.Conditions
import IndexAlgebra.Proofs.Fits.Rules
import IndexAlgebra.Proofs.Termination
import IndexAlgebra.Proofs.SumTyping
import IndexAlgebra.Proofs.TypePreservation
import IndexAlgebra.Proofs.AssumedCondition
import IndexAlgebra.Proofs.LaneValues
import IndexAlgebra.Proofs.Exactness
import IndexAlgebra.Proofs.Exact.Quotients
import IndexAlgebra.Proofs.Exact.Comparisons
import IndexAlgebra.Proofs.Exact.Choices
import IndexAlgebra.Proofs.Exact.Conditions
import IndexAlgebra.Proofs.Exact.Sums
import IndexAlgebra.Proofs.Exact.Extrema
import IndexAlgebra.Proofs.Exact.Identities
import IndexAlgebra.Proofs.Exact.Conversions
import IndexAlgebra.Proofs.Exact.Lanes
import IndexAlgebra.Proofs.Bound.Saturation
import IndexAlgebra.Proofs.SumContent
import IndexAlgebra.Proofs.FlatteningFuel
import IndexAlgebra.Proofs.RingForms
import IndexAlgebra.Proofs.SimultaneousSubstitution
import IndexAlgebra.Proofs.UniqueBinders
import IndexAlgebra.Proofs.ProvenRelations
import IndexAlgebra.Proofs.LaneCounts
import IndexAlgebra.Proofs.KeptRelations
import IndexAlgebra.Proofs.FullShuffles
import IndexAlgebra.Proofs.FullRules
import IndexAlgebra.Proofs.BoundValues
import IndexAlgebra.Proofs.ImpliedFacts
import IndexAlgebra.Proofs.Refusals
import IndexAlgebra.Proofs.StepLimit
import IndexAlgebra.Proofs.TypeSoundness
import IndexAlgebra.Proofs.Bound.Monotonicity
import IndexAlgebra.Proofs.Narrowing
import IndexAlgebra.Proofs.Satisfaction
import IndexAlgebra.Proofs.RenamedBound
import IndexAlgebra.Proofs.ScopedBound
import IndexAlgebra.Proofs.FloatIntegers
import IndexAlgebra.Proofs.AdaptedConstants
import IndexAlgebra.Proofs.FaultSpans
import IndexAlgebra.Proofs.JsonText
import IndexAlgebra.Proofs.SerialForm
import IndexAlgebra.Proofs.SumTerms
import IndexAlgebra.Proofs.DivisionDepth
import IndexAlgebra.Proofs.FlatteningEnds
import IndexAlgebra.Proofs.FlatteningTermination
import IndexAlgebra.Proofs.RegularExpressions
import IndexAlgebra.Proofs.Exact.Truths
import IndexAlgebra.Proofs.Exact.AllRules
import IndexAlgebra.Proofs.Courses
import IndexAlgebra.Proofs.ReductionSoundness
