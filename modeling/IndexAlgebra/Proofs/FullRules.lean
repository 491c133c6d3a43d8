/-
This file proves that simplification keeps shuffles full, with as many indices as their types have
lanes. No rule makes a shuffle: what a rule builds is put together of parts of the node and of
constants, so that its shuffles are those of the parts.
-/
import IndexAlgebra.Proofs.FullShuffles
import IndexAlgebra.Proofs.KeptRelations

namespace IndexAlgebra

/-- The first expression is full if the second one is. -/
def Expr.KeepsFull (result expr : Expr) : Prop := expr.Full → result.Full

namespace Reduction

open IndexAlgebra.Expr

variable {expr result : Expr} {op : BinaryOp}

attribute [local simp] Option.bind_eq_some_iff Option.guard_eq_some'
attribute [local grind =] Option.bind_eq_some_iff Option.guard_eq_some'

/-! ### Identities and vectors -/

theorem Identities.rules_keepFull (evidence : Evidence) (expr : Expr) :
    ∀ rule ∈ rules, Rule.Relates KeepsFull evidence expr rule := by
  simp only [rules, List.forall_mem_cons, Rule.pure, Rule.Relates]
  refine ⟨?_, ?_, ?_, ?_, ?_, ?_, ?_, ?_, ?_, ?_, ?_, by simp⟩
  · intro result applies full
    unfold foldConstants? foldInts? foldFloats? foldBools? at applies
    grind
  · intro result _ applies full
    simp [constantToRight?] at applies
    grind
  · intro result applies full
    simp [logicalConstant?] at applies
    grind
  · intro result applies full
    simp [addZero?] at applies
    grind
  · intro result applies full
    simp [subtractSelf?] at applies
    grind
  · intro result applies full
    simp [multiplyOne?] at applies
    grind
  · intro result applies full
    simp [multiplyZero?] at applies
    grind
  · intro result applies full
    simp [modOne?] at applies
    grind
  · intro result applies full
    simp [divideSelf?] at applies
    grind
  · intro result applies full
    simp [sameOperands?] at applies
    grind
  · intro result applies full
    simp [knownValue?] at applies
    grind

theorem Lanes.rules_keepFull (evidence : Evidence) (expr : Expr) :
    ∀ rule ∈ rules, Rule.Relates KeepsFull evidence expr rule := by
  simp only [rules, List.forall_mem_cons, Rule.pure, Rule.Relates]
  refine ⟨?_, ?_, ?_, ?_, ?_, ?_, by simp⟩
  · intro result applies full
    simp [broadcastOp?] at applies
    grind
  · intro result applies full
    simp [rampAddRamp?] at applies
    grind
  · intro result applies full
    simp [rampAddBroadcast?] at applies
    grind
  · intro result applies full
    simp [rampMulBroadcast?] at applies
    obtain ⟨lhs, rhs, ⟨dtype, rfl⟩, applies⟩ := applies
    split at applies
    · grind
    · simp at applies
      grind
  · intro result applies full
    simp [rampZeroStride?] at applies
    grind
  · intro result applies full
    simp [broadcastUnary?] at applies
    grind

/-! ### Sums, differences and products -/

namespace Sums

@[grind .]
theorem full_splitCoefficient (full : expr.Full) : (splitCoefficient expr).1.Full := by
  unfold splitCoefficient
  cases reads : expr.withConst? .mul with
  | none => exact full
  | some parts => exact full.of_withConst? reads

@[grind →]
theorem full_splitConstant? {term constant : Expr} (full : expr.Full)
    (splits : splitConstant? expr = some (op, term, constant)) : term.Full ∧ constant.Full := by
  simp [splitConstant?] at splits
  grind

@[grind .]
theorem full_withoutShared? {a b c d x y : Expr} (finds : withoutShared? (a, b) (c, d) = some (x, y))
    (isA : a.Full) (isB : b.Full) (isC : c.Full) (isD : d.Full) : x.Full ∧ y.Full := by
  simp only [withoutShared?] at finds
  grind

@[grind .]
theorem full_otherOperand? {term other : Expr} (full : expr.Full)
    (finds : otherOperand? expr op term = some other) : other.Full := by
  simp [otherOperand?] at finds
  grind

@[grind .]
theorem full_reassembled? {remainder : Expr} (full : expr.Full)
    (finds : reassembled? expr remainder = some result) : result.Full := by
  simp [reassembled?] at finds
  grind

@[grind .]
theorem full_scaleTerm? {factor : Int} (full : expr.Full)
    (builds : scaleTerm? factor expr = some result) : result.Full := by
  simp [scaleTerm?] at builds
  grind

theorem full_negativeConstant (full : expr.Full) (applies : negativeConstant? op expr = some result) :
    result.Full := by
  simp [negativeConstant?] at applies
  grind

theorem full_factorTerms (full : expr.Full) (applies : factorTerms? op expr = some result) :
    result.Full := by
  simp [factorTerms?] at applies
  grind

theorem full_distributeSelect (full : expr.Full) (applies : distributeSelect? expr = some result) :
    result.Full := by
  simp [distributeSelect?] at applies
  grind

theorem sumRules_keepFull (evidence : Evidence) (expr : Expr) :
    ∀ rule ∈ sumRules, Rule.Relates KeepsFull evidence expr rule := by
  simp only [sumRules, List.forall_mem_cons, Rule.pure, Rule.Relates]
  refine ⟨fun _ applies full => full_negativeConstant full applies, ?_, ?_, ?_,
    fun _ applies full => full_factorTerms full applies, ?_, ?_,
    fun _ applies full => full_distributeSelect full applies, ?_, by simp⟩
  · intro result applies full
    simp [collectInSum?] at applies
    grind
  · intro result applies full
    simp [cancelInSum?] at applies
    grind
  · intro result applies full
    simp [addSelf?] at applies
    grind
  · intro result applies full
    simp [reassemble?] at applies
    grind
  · intro result applies full
    simp [minPlusMax?] at applies
    obtain ⟨lhs, rhs, ⟨dtype, rfl⟩, applies⟩ := applies
    split at applies <;> simp at applies <;> grind
  · intro result applies full
    simp [moveOutOfSum?] at applies
    grind

theorem differenceRules_keepFull (evidence : Evidence) (expr : Expr) :
    ∀ rule ∈ differenceRules, Rule.Relates KeepsFull evidence expr rule := by
  simp only [differenceRules, List.forall_mem_cons, Rule.pure, Rule.Relates]
  refine ⟨fun _ applies full => full_negativeConstant full applies, ?_, ?_,
    fun _ applies full => full_factorTerms full applies, ?_,
    fun _ applies full => full_distributeSelect full applies, ?_, by simp⟩
  · intro result applies full
    simp [collectInDifference?] at applies
    grind
  · intro result applies full
    simp [cancelInDifference?] at applies
    grind
  · intro result applies full
    simp [subtractMinMax?] at applies
    grind
  · intro result applies full
    simp [moveOutOfDifference?] at applies
    grind

theorem productRules_keepFull (evidence : Evidence) (expr : Expr) :
    ∀ rule ∈ productRules, Rule.Relates KeepsFull evidence expr rule := by
  simp only [productRules, List.forall_mem_cons, Rule.pure, Rule.Relates]
  refine ⟨?_, ?_, by simp⟩
  · intro result applies full
    simp [collectInProduct?] at applies
    grind
  · intro result applies full
    simp [distributeConstant?] at applies
    grind

end Sums

/-! ### Quotients, remainders and extrema -/

namespace Quotients

variable {division : Division}

@[grind →]
theorem full_asQuotient? (full : expr.Full) (reads : asQuotient? expr = some division) :
    division.dividend.Full := by
  simp [asQuotient?] at reads
  grind

@[grind →]
theorem full_asRemainder? (full : expr.Full) (reads : asRemainder? expr = some division) :
    division.dividend.Full := by
  simp [asRemainder?] at reads
  grind

@[grind →]
theorem full_splitMultiple? {divisor coefficient : Int} {product rest factor : Expr} (full : expr.Full)
    (splits : splitMultiple? divisor expr = some (product, rest, factor, coefficient)) :
    product.Full ∧ rest.Full ∧ factor.Full := by
  simp [splitMultiple?] at splits
  grind

theorem quotientRules_keepFull (evidence : Evidence) (expr : Expr) :
    ∀ rule ∈ quotientRules, Rule.Relates KeepsFull evidence expr rule := by
  simp only [quotientRules, List.forall_mem_cons, Rule.pure, Rule.Relates]
  refine ⟨?_, ?_, ?_, by simp⟩
  · intro result applies full
    simp [divideProduct?] at applies
    grind
  · intro result applies full
    simp [splitDividend?] at applies
    obtain ⟨_, -, -, _, _, _, -, applies⟩ := applies
    split at applies
    · simp [splitOffset?] at applies
      grind
    · simp [splitTerm?] at applies
      grind
  · intro result applies full
    simp [nestedQuotient?] at applies
    grind

theorem remainderRules_keepFull (evidence : Evidence) (expr : Expr) :
    ∀ rule ∈ remainderRules, Rule.Relates KeepsFull evidence expr rule := by
  simp only [remainderRules, List.forall_mem_cons, Rule.pure, Rule.Relates]
  refine ⟨?_, ?_, ?_, ?_, ?_, ?_, by simp⟩
  · intro result applies full
    simp [modInRange?] at applies
    grind
  · intro result applies full
    simp [remainderOfProduct?] at applies
    grind
  · intro result applies full
    simp [dropMultiple?] at applies
    grind
  · intro result applies full
    simp [modularRemainder?] at applies
    grind
  · intro result applies full
    simp [nestedRemainder?] at applies
    grind
  · intro result applies full
    simp [reduceOffset?] at applies
    grind

end Quotients

namespace Extrema

@[grind →]
theorem full_asExtremum? {lhs rhs : Expr} (full : expr.Full)
    (reads : asExtremum? expr = some (op, lhs, rhs)) : lhs.Full ∧ rhs.Full := by
  simp [asExtremum?] at reads
  grind

@[grind .]
theorem full_scaledConstant? {rhs : Expr} {factor : Int} (full : expr.Full)
    (scales : scaledConstant? op expr factor rhs = some result) : result.Full := by
  simp [scaledConstant?] at scales
  grind

theorem rules_keepFull (evidence : Evidence) (expr : Expr) :
    ∀ rule ∈ rules, Rule.Relates KeepsFull evidence expr rule := by
  simp only [rules, List.forall_mem_cons, Rule.pure, Rule.Relates]
  refine ⟨?_, ?_, ?_, ?_, ?_, ?_, by simp⟩
  · intro result applies full
    simp [extremumOfConstants?] at applies
    grind
  · intro result applies full
    simp [absorb?] at applies
    grind
  · intro result applies full
    simp [repeated?] at applies
    grind
  · intro result applies full
    simp [commonTerm?] at applies
    grind
  · intro result applies full
    simp [scale?] at applies
    grind
  · intro relation result applies full
    simp [knownExtremum?] at applies
    grind

end Extrema

/-! ### Comparisons -/

namespace Comparisons

@[grind →]
theorem full_asIntComparison? {lhs rhs : Expr} (full : expr.Full)
    (reads : asIntComparison? expr = some (op, lhs, rhs)) : lhs.Full ∧ rhs.Full := by
  simp [asIntComparison?] at reads
  grind

@[grind →]
theorem full_againstConst? {term : Expr} {number : Int} (full : expr.Full)
    (reads : againstConst? expr = some (op, term, number)) : term.Full := by
  simp [againstConst?] at reads
  grind

@[grind .]
theorem full_normalForm? {number : Int} (full : expr.Full)
    (builds : normalForm? op expr number = some result) : result.Full := by
  unfold normalForm? at builds
  grind

@[grind .]
theorem full_moveLeftConstant? {number : Int} (full : expr.Full)
    (moves : moveLeftConstant? op expr number = some result) : result.Full := by
  simp [moveLeftConstant?] at moves
  grind

@[grind .]
theorem full_moveRightConstant? {number : Int} (full : expr.Full)
    (moves : moveRightConstant? op number expr = some result) : result.Full := by
  simp [moveRightConstant?] at moves
  grind

@[grind .]
theorem full_divideLeft? {dtype : DataType} {number : Int} (full : expr.Full)
    (divides : divideLeft? dtype op expr number = some result) : result.Full := by
  simp [divideLeft?] at divides
  grind

@[grind .]
theorem full_divideRight? {number : Int} (full : expr.Full)
    (divides : divideRight? op number expr = some result) : result.Full := by
  simp [divideRight?] at divides
  grind

theorem full_cancelled? {lhs rhs left right : Expr} (isLeft : lhs.Full) (isRight : rhs.Full)
    (cancels : cancelled? op lhs rhs = some (left, right)) : left.Full ∧ right.Full := by
  unfold cancelled? at cancels
  dsimp only at cancels
  split at cancels
  next a b isA isB => exact Sums.full_withoutShared? cancels (by grind) (by grind) (by grind) (by grind)
  split at cancels
  next => grind
  split at cancels
  next => grind
  split at cancels
  next =>
    simp at cancels
    grind
  split at cancels
  next =>
    simp at cancels
    grind
  split at cancels
  next =>
    simp at cancels
    grind
  next =>
    simp at cancels
    grind
  next => cases cancels

theorem rules_keepFull (evidence : Evidence) (expr : Expr) :
    ∀ rule ∈ rules, Rule.Relates KeepsFull evidence expr rule := by
  simp only [rules, List.forall_mem_cons, Rule.pure, Rule.Relates]
  refine ⟨?_, ?_, ?_, ?_, ?_, ?_, ?_, ?_, ?_, by simp⟩
  · intro result applies full
    simp [compareDifference?] at applies
    grind
  · intro result applies full
    simp [normalize?] at applies
    grind
  · intro result applies full
    simp [boolEquality?] at applies
    grind
  · intro relation result applies full
    simp [knownComparison?] at applies
    grind
  · intro result applies full
    simp [moveConstant?] at applies
    grind
  · intro result applies full
    simp [divideComparison?] at applies
    grind
  · intro result applies full
    simp [cancelComparison?] at applies
    obtain ⟨op, lhs, rhs, reads, left, right, cancels, builds⟩ := applies
    obtain ⟨isLhs, isRhs⟩ := full_asIntComparison? full reads
    obtain ⟨isLeft, isRight⟩ := full_cancelled? isLhs isRhs cancels
    exact full_binary? builds isLeft isRight
  · intro result applies full
    simp [dropRemainder?] at applies
    grind
  · intro result applies full
    simp [compareFloorDiv?] at applies
    grind

end Comparisons

/-! ### Conditions, choices and conversions -/

namespace Conditions

@[grind .]
theorem full_negation? (full : expr.Full) (negates : negation? expr = some result) : result.Full := by
  unfold negation? at negates
  grind

theorem knownRules_keepFull (evidence : Evidence) (expr : Expr) :
    ∀ rule ∈ knownRules, Rule.Relates KeepsFull evidence expr rule := by
  simp only [knownRules, List.forall_mem_cons, Rule.Relates]
  refine ⟨?_, by simp⟩
  intro result applies full
  simp [knownLiteral?] at applies
  grind

theorem rules_keepFull (evidence : Evidence) (expr : Expr) :
    ∀ rule ∈ rules, Rule.Relates KeepsFull evidence expr rule := by
  simp only [rules, List.forall_mem_cons, Rule.pure, Rule.Relates]
  refine ⟨?_, ?_, ?_, ?_, ?_, ?_, by simp⟩
  · intro result applies full
    simp [doubleNegation?] at applies
    grind
  · intro result applies full
    simp [negateComparison?] at applies
    grind
  · intro result applies full
    simp [deMorgan?] at applies
    grind
  · intro result applies full
    simp [complement?] at applies
    grind
  · intro result applies full
    simp [contradiction?] at applies
    grind
  · intro result applies full
    simp [mergeRanges?] at applies
    grind

end Conditions

namespace Choices

variable {cond onTrue onFalse : Expr}

@[grind →]
theorem full_asChoice? (full : expr.Full) (reads : asChoice? expr = some (cond, onTrue, onFalse)) :
    cond.Full ∧ onTrue.Full ∧ onFalse.Full := by
  unfold asChoice? at reads
  grind

@[grind .]
theorem full_rebuild? {like : Expr} (builds : rebuild? like cond onTrue onFalse = some result)
    (isCond : cond.Full) (taken : onTrue.Full) (other : onFalse.Full) : result.Full := by
  unfold rebuild? at builds
  grind

theorem rules_keepFull (evidence : Evidence) (expr : Expr) :
    ∀ rule ∈ rules, Rule.Relates KeepsFull evidence expr rule := by
  simp only [rules, List.forall_mem_cons, Rule.pure, Rule.Relates]
  refine ⟨?_, ?_, ?_, ?_, ?_, by simp⟩
  · intro result applies full
    simp [ofConstant?] at applies
    grind
  · intro result applies full
    simp [ofSame?] at applies
    grind
  · intro result applies full
    simp [ofNegated?] at applies
    grind
  · intro result applies full
    unfold toMinMax? at applies
    split at applies
    · simp at applies
      grind
    · cases applies
  · intro result applies full
    simp [ofNested?] at applies
    obtain ⟨cond, onTrue, onFalse, reads, applies⟩ := applies
    obtain ⟨isCond, isTrue, isFalse⟩ := full_asChoice? full reads
    split at applies
    next _ taken _ _ isInner =>
      obtain ⟨inner, -⟩ := Option.filter_eq_some_iff.mp isInner
      exact full_rebuild? applies isCond (full_asChoice? isTrue inner).2.1 isFalse
    next _ _ other _ isInner =>
      obtain ⟨inner, -⟩ := Option.filter_eq_some_iff.mp isInner
      exact full_rebuild? applies isCond isTrue (full_asChoice? isFalse inner).2.2
    next => cases applies

end Choices

@[grind .]
theorem Conversions.full_convert? {dtype : DataType} (converts : convert? dtype expr = some result) :
    result.Full := by
  unfold convert? at converts
  split at converts
  · grind
  · simp at converts
    grind
  · grind
  · cases converts

theorem Conversions.rules_keepFull (evidence : Evidence) (expr : Expr) :
    ∀ rule ∈ rules, Rule.Relates KeepsFull evidence expr rule := by
  simp only [rules, List.forall_mem_cons, Rule.pure, Rule.Relates]
  refine ⟨?_, ?_, ?_, by simp⟩
  · intro result applies full
    unfold foldCast? at applies
    grind
  · intro result applies full
    unfold removeCast? at applies
    grind
  · intro result applies full
    unfold collapseCast? at applies
    grind

/-! ### Bindings -/

theorem Bindings.rules_keepFull (evidence : Evidence) (expr : Expr) :
    ∀ rule ∈ rules, Rule.Relates KeepsFull evidence expr rule := by
  simp only [rules, List.forall_mem_cons, Rule.pure, Rule.Relates]
  refine ⟨?_, ?_, by simp⟩
  · intro result applies full
    unfold drop? at applies
    grind
  · intro result applies full
    unfold expand? at applies
    split at applies
    next dtype name value body =>
      obtain ⟨-, equal⟩ := Option.ite_none_right_eq_some.mp applies
      cases equal
      obtain ⟨isValue, isBody⟩ := full_letIn.mp full
      refine isBody.substituteWithin (fun other replaced found => ?_) _ _
      obtain ⟨-, equal⟩ := Option.ite_none_right_eq_some.mp found
      exact Option.some.inj equal ▸ isValue
    next => cases applies

/-! ### Simplification -/

theorem rulesOfOp_keepFull (evidence : Evidence) (dtype : DataType) (op : BinaryOp) (expr : Expr) :
    ∀ rule ∈ rulesOfOp dtype op, Rule.Relates KeepsFull evidence expr rule := by
  intro rule member
  unfold rulesOfOp at member
  dsimp only at member
  split at member
  · obtain ⟨-, member⟩ := List.mem_ite_nil_right.mp member
    split at member
    · exact Sums.sumRules_keepFull evidence expr rule member
    · exact Sums.differenceRules_keepFull evidence expr rule member
    · exact Sums.productRules_keepFull evidence expr rule member
    · exact Quotients.quotientRules_keepFull evidence expr rule member
    · exact Quotients.quotientRules_keepFull evidence expr rule member
    · exact Quotients.remainderRules_keepFull evidence expr rule member
    · exact Quotients.remainderRules_keepFull evidence expr rule member
    · exact Extrema.rules_keepFull evidence expr rule member
    · exact Extrema.rules_keepFull evidence expr rule member
    · cases member
  · exact Comparisons.rules_keepFull evidence expr rule member
  · exact Conditions.rules_keepFull evidence expr rule member

theorem rulesFor_keepFull (evidence : Evidence) (expr : Expr) :
    ∀ rule ∈ rulesFor expr, Rule.Relates KeepsFull evidence expr rule := by
  intro rule member
  simp only [rulesFor, List.mem_append, List.mem_ite_nil_right] at member
  rcases member with ((general | ⟨-, vectors⟩) | known) | ofKind
  · exact Identities.rules_keepFull evidence expr rule general
  · exact Lanes.rules_keepFull evidence expr rule vectors
  · exact Conditions.knownRules_keepFull evidence expr rule known
  · unfold rulesOfKind at ofKind
    split at ofKind
    · exact rulesOfOp_keepFull evidence _ _ _ rule ofKind
    · exact Conditions.rules_keepFull evidence _ rule ofKind
    · exact Choices.rules_keepFull evidence _ rule ofKind
    · exact Choices.rules_keepFull evidence _ rule ofKind
    · exact Conversions.rules_keepFull evidence _ rule ofKind
    · exact Bindings.rules_keepFull evidence _ rule ofKind
    · cases ofKind

theorem full_of_forall₂ {results exprs : List Expr} (keep : List.Forall₂ KeepsFull results exprs)
    (full : ∀ expr ∈ exprs, expr.Full) : ∀ result ∈ results, result.Full := by
  induction keep with
  | nil => exact full
  | cons first _ inductionHypothesis =>
    rw [List.forall_mem_cons] at full ⊢
    exact ⟨first full.1, inductionHypothesis full.2⟩

theorem kept_keepsFull : Kept KeepsFull where
  refl _ := id
  trans inner outer := inner ∘ outer
  withChildren keep full :=
    full.withChildren keep.length_eq (full_of_forall₂ keep fun _ isChild => full.child isChild)
  rules := rulesFor_keepFull

end Reduction

namespace Analyzer

variable {analyzer : Analyzer}

/-- The values that stand for variables have the types of these, and their shuffles are full. -/
structure ValuesLaned (analyzer : Analyzer) : Prop where
  typed : analyzer.ValuesTyped
  full : ∀ name value, analyzer.known.values.find? name = some value → value.Full

/-- Simplification keeps the type of an expression and its shuffles full. -/
theorem ValuesLaned.reduce (values : analyzer.ValuesLaned) {expr : Expr} {dtype : DataType}
    (typed : expr.HasType dtype) (full : expr.Full) :
    (analyzer.reduce expr).HasType dtype ∧ (analyzer.reduce expr).Full := by
  have isolated : (analyzer.known.isolate expr).Full :=
    (analyzer.known.isolate_renamed typed.coherent.namesTyped).full full
  exact ⟨values.typed.reduce expr dtype typed, reduce_related Reduction.kept_keepsFull analyzer expr
    (isolated.substituteWithin values.full _ _)⟩

/-! ### Operations -/

/-- The shuffles of the value that an operation binds a variable to are full. -/
def Operation.Full : Operation → Prop
  | .bind _ binding _ => ∀ value, binding.drawn = .value value → value.Full
  | _ => True

theorem ValuesLaned.after (values : analyzer.ValuesLaned) {operation : Operation}
    (typed : operation.Typed) (full : operation.Full) : (analyzer.after operation).ValuesLaned := by
  refine ⟨values.typed.after typed, fun name value found => ?_⟩
  rcases value_after found with before | ⟨binding, allowOverride, expr, rfl, drawn, rfl⟩
  · exact values.full name value before
  · exact (values.reduce (typed expr drawn) (full expr drawn)).2

/-- In every state that is reached by operations whose own values are typed and full, the values of
variables are. -/
theorem valuesLaned_afterAll (limits : Limits) (operations : List Operation)
    (typed : ∀ operation ∈ operations, operation.Typed) (full : ∀ operation ∈ operations, operation.Full) :
    (({ limits } : Analyzer).afterAll operations).ValuesLaned := by
  have start : ({ limits } : Analyzer).ValuesLaned := by
    constructor <;>
    · intro name value found
      cases found
  unfold afterAll
  generalize ({ limits } : Analyzer) = analyzer at start
  induction operations generalizing analyzer with
  | nil => exact start
  | cons first later inductionHypothesis =>
    rw [List.forall_mem_cons] at typed full
    exact inductionHypothesis typed.2 full.2 _ (start.after typed.1 full.1)

end Analyzer

end IndexAlgebra
