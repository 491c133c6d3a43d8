/-
This file proves that the rules for bindings make expressions that stand for the ones they replace, and
collects what has been proved of all rules: what a rule makes of a node stands for the node. No rule
applies to a constant or to a vector of one constant.
-/
import IndexAlgebra.Proofs.Fits.Comparisons
import IndexAlgebra.Proofs.Fits.Conditions
import IndexAlgebra.Proofs.Fits.Identities
import IndexAlgebra.Proofs.Fits.Lanes
import IndexAlgebra.Proofs.Fits.Quotients
import IndexAlgebra.Reduction.Simplifier

namespace IndexAlgebra.Reduction

open IndexAlgebra.Expr

namespace Bindings

variable {expr result : Expr}

theorem hasType_letIn {dtype type : DataType} {name : Variable} {value body : Expr}
    (typed : (letIn dtype name value body).HasType type) :
    value.HasType name.dtype ∧ body.HasType type := by
  obtain ⟨coherent, rfl⟩ := typed
  rw [Coherent] at coherent
  obtain ⟨isValue, isBody, bound, same⟩ := coherent
  exact ⟨⟨isValue, bound⟩, isBody, same.symm⟩

theorem standsFor_drop (applies : drop? expr = some result) : result.StandsFor expr := by
  unfold drop? at applies
  split at applies
  next dtype name value body =>
    obtain ⟨unused, equal⟩ := Option.ite_none_left_eq_some.mp applies
    cases equal
    refine ⟨fun sizes => ?_, fun type typed => (hasType_letIn typed).2⟩
    have inner : result.load (Function.update sizes name (value.load sizes)) = result.load sizes :=
      load_update_of_not_uses (by simpa using unused) _
    rw [load, inner]
    omega
  next => cases applies

theorem standsFor_expand (applies : expand? expr = some result) : result.StandsFor expr := by
  unfold expand? at applies
  split at applies
  next dtype name value body =>
    obtain ⟨-, equal⟩ := Option.ite_none_right_eq_some.mp applies
    cases equal
    refine ⟨fun sizes => ?_, fun type typed => ?_⟩
    · refine (load_substituteWithin le_rfl fun other _ => ?_).trans (?_ : body.load
        (Function.update sizes name (value.load sizes)) ≤ (letIn dtype name value body).load sizes)
      · by_cases same : other = name
        · simp [landing, Replacement.single, same]
        · simp [landing, Replacement.single, same, Variable.expr, load]
      · rw [load]
        omega
    · obtain ⟨isValue, isBody⟩ := hasType_letIn typed
      refine isBody.substitute fun other replaced found _ => ?_
      obtain ⟨rfl, equal⟩ := Option.ite_none_right_eq_some.mp found
      exact Option.some.inj equal ▸ isValue
  next => cases applies

/-- Every rule for bindings fits every expression. -/
theorem rules_fit (evidence : Evidence) (expr : Expr) :
    ∀ rule ∈ rules, rule.Fits evidence expr := by
  simp only [rules, List.forall_mem_cons, Rule.pure, Rule.Fits]
  exact ⟨fun _ => standsFor_drop, fun _ => standsFor_expand, by simp⟩

end Bindings

/-! ### All rules -/

/-- Every rule for the operator of a binary node fits every expression. -/
theorem rulesOfOp_fit (evidence : Evidence) (dtype : DataType) (op : BinaryOp) (expr : Expr) :
    ∀ rule ∈ rulesOfOp dtype op, rule.Fits evidence expr := by
  intro rule member
  unfold rulesOfOp at member
  dsimp only at member
  split at member
  · obtain ⟨-, member⟩ := List.mem_ite_nil_right.mp member
    split at member
    · exact Sums.sumRules_fit evidence expr rule member
    · exact Sums.differenceRules_fit evidence expr rule member
    · exact Sums.productRules_fit evidence expr rule member
    · exact Quotients.quotientRules_fit evidence expr rule member
    · exact Quotients.quotientRules_fit evidence expr rule member
    · exact Quotients.remainderRules_fit evidence expr rule member
    · exact Quotients.remainderRules_fit evidence expr rule member
    · exact Extrema.rules_fit evidence expr rule member
    · exact Extrema.rules_fit evidence expr rule member
    · cases member
  · exact Comparisons.rules_fit evidence expr rule member
  · exact Conditions.rules_fit evidence expr rule member

/-- Every rule that is tried on a node fits it. -/
theorem rulesFor_fit (evidence : Evidence) (expr : Expr) :
    ∀ rule ∈ rulesFor expr, rule.Fits evidence expr := by
  intro rule member
  simp only [rulesFor, List.mem_append, List.mem_ite_nil_right] at member
  rcases member with ((general | ⟨-, vectors⟩) | known) | ofKind
  · exact Identities.rules_fit evidence expr rule general
  · exact Lanes.rules_fit evidence expr rule vectors
  · exact Conditions.knownRules_fit evidence expr rule known
  · unfold rulesOfKind at ofKind
    split at ofKind
    · exact rulesOfOp_fit evidence _ _ _ rule ofKind
    · exact Conditions.rules_fit evidence _ rule ofKind
    · exact Choices.rules_fit evidence _ rule ofKind
    · exact Choices.rules_fit evidence _ rule ofKind
    · exact Conversions.rules_fit evidence _ rule ofKind
    · exact Bindings.rules_fit evidence _ rule ofKind
    · cases ofKind

/-- The rule finds nothing to do in the expression. -/
def Rule.Ignores (evidence : Evidence) (expr : Expr) : Rule → Prop
  | .plain _ apply => apply evidence expr = none
  | .counted _ fits _ => fits expr = false
  | .comparing _ operands _ => operands expr = none

instance (evidence : Evidence) (form : Expr) (rule : Rule) :
    Decidable (Rule.Ignores evidence form rule) :=
  match rule with
  | .plain _ apply => inferInstanceAs (Decidable (apply evidence form = none))
  | .counted _ fits _ => inferInstanceAs (Decidable (fits form = false))
  | .comparing _ operands _ => inferInstanceAs (Decidable (operands form = none))

/-- The expression has no operands, and no rule finds anything to do in it. -/
def Rests (evidence : Evidence) (expr : Expr) : Prop :=
  expr.children = [] ∧ ∀ rule ∈ rulesFor expr, Rule.Ignores evidence expr rule

instance (evidence : Evidence) (expr : Expr) : Decidable (Rests evidence expr) :=
  inferInstanceAs (Decidable
    (expr.children = [] ∧ ∀ rule ∈ rulesFor expr, Rule.Ignores evidence expr rule))

/-- No rule that is tried on a constant, or on a vector of one constant, finds anything to do in it. -/
theorem rulesFor_ignore (evidence : Evidence) {expr : Expr} (frozen : expr.isFrozen = true) :
    ∀ rule ∈ rulesFor expr, Rule.Ignores evidence expr rule := by
  have varying : (expr.dtype.isScalar && !expr.isConst) = false := by
    cases expr <;> simp_all [isFrozen, IndexAlgebra.Expr.isConst, Expr.dtype, DataType.isScalar,
      DataType.isVector]
    omega
  obtain ⟨notBinary, notRamp, noUnary, noFold, noKind⟩ : expr.asBinary? = none ∧ expr.asRamp? = none ∧
      Lanes.broadcastUnary? expr = none ∧ Identities.foldConstants? expr = none ∧
      rulesOfKind expr = [] := by
    cases expr <;> simp_all [isFrozen, IndexAlgebra.Expr.isConst] <;> exact ⟨rfl, rfl, rfl, rfl, rfl⟩
  have noOperands : ∀ op, expr.operands? op = none := by
    intro op
    cases expr <;> first | rfl | cases notBinary
  have general : ∀ rule ∈ Identities.rules, Rule.Ignores evidence expr rule := by
    simp only [Identities.rules, List.forall_mem_cons, Rule.pure, Rule.Ignores]
    refine ⟨noFold, ?_, ?_, ?_, ?_, ?_, ?_, ?_, ?_, ?_, ?_, by simp⟩
    · simp [Identities.hasConstantOnLeft, notBinary]
    · simp [Identities.logicalConstant?, notBinary]
    · simp [Identities.addZero?, notBinary]
    · simp [Identities.subtractSelf?, noOperands]
    · simp [Identities.multiplyOne?, notBinary]
    · simp [Identities.multiplyZero?, noOperands]
    · simp [Identities.modOne?, notBinary]
    · simp [Identities.divideSelf?, notBinary]
    · simp [Identities.sameOperands?, notBinary]
    · simp [Identities.knownValue?, Bool.and_assoc, varying]
  have vectors : ∀ rule ∈ Lanes.rules, Rule.Ignores evidence expr rule := by
    simp only [Lanes.rules, List.forall_mem_cons, Rule.pure, Rule.Ignores]
    refine ⟨?_, ?_, ?_, ?_, ?_, noUnary, by simp⟩
    · simp [Lanes.broadcastOp?, notBinary]
    · simp [Lanes.rampAddRamp?, notBinary]
    · simp [Lanes.rampAddBroadcast?, notBinary]
    · simp [Lanes.rampMulBroadcast?, noOperands]
    · simp [Lanes.rampZeroStride?, notRamp]
  have known : ∀ rule ∈ Conditions.knownRules, Rule.Ignores evidence expr rule := by
    simp [Conditions.knownRules, Rule.Ignores, Conditions.knownLiteral?, Bool.and_assoc, varying]
  intro rule member
  simp only [rulesFor, List.mem_append, List.mem_ite_nil_right, noKind, List.not_mem_nil,
    or_false] at member
  rcases member with (isGeneral | ⟨-, isVectors⟩) | isKnown
  · exact general rule isGeneral
  · exact vectors rule isVectors
  · exact known rule isKnown

end IndexAlgebra.Reduction
