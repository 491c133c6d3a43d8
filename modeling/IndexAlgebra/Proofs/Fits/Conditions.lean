/-
This file proves that the rules for conditions, for choices and for conversions between types make
expressions that stand for the ones they replace. A logical node is one heavier than its heavier
operand, so that a negation may move inside it.
-/
import IndexAlgebra.Proofs.StandsFor
import IndexAlgebra.Reduction.Choices
import IndexAlgebra.Reduction.Conditions
import IndexAlgebra.Reduction.Conversions

namespace IndexAlgebra.Reduction.Conditions

open IndexAlgebra.Expr

attribute [local simp] Option.bind_eq_some_iff Option.guard_eq_some'

/-! ### Negations -/

theorem standsFor_doubleNegation {expr result : Expr}
    (applies : doubleNegation? expr = some result) : result.StandsFor expr := by
  simp [doubleNegation?] at applies
  obtain ⟨innerType, dtype, rfl⟩ := applies
  refine ⟨fun sizes => ?_, fun type typed => ?_⟩
  · rw [load, load]
    omega
  · obtain ⟨-, inner, -⟩ := hasType_not.mp typed
    exact (hasType_not.mp inner).2.1

/-- The opposite of a comparison whose sides may trade places stands for the comparison. -/
theorem standsFor_negation {dtype : DataType} {op : BinaryOp} {lhs rhs result : Expr}
    (isComparison : op.isComparison = true) (notFloat : lhs.dtype.isFloat = false)
    (negates : negation? (binary dtype op lhs rhs) = some result) :
    result.StandsFor (binary dtype op lhs rhs) := by
  unfold negation? at negates
  dsimp only at negates
  rw [if_neg (by simp [notFloat])] at negates
  have plain : isInert op lhs rhs = false := by
    cases op <;> first | rfl | cases isComparison
  cases op with
  | lt | le =>
    exact (StandsFor.refl lhs).combine_swap (.refl rhs) (by rfl) (by rfl) plain negates
  | gt | ge | eq | ne =>
    exact (StandsFor.refl lhs).combine (.refl rhs) (by rfl) (by rfl) plain negates
  | _ => cases isComparison

/-- A condition that stands for the operand of a negation stands for the negation. -/
theorem standsFor_not {dtype : DataType} {value result : Expr} (stands : result.StandsFor value) :
    result.StandsFor (Expr.not dtype value) := by
  refine ⟨fun sizes => (stands.lighter sizes).trans ?_, fun type typed => ?_⟩
  · exact Nat.le_succ _
  · exact stands.typed type (hasType_not.mp typed).2.1

theorem standsFor_negateComparison {expr result : Expr}
    (applies : negateComparison? expr = some result) : result.StandsFor expr := by
  simp [negateComparison?] at applies
  obtain ⟨op, lhs, rhs, innerType, ⟨dtype, rfl⟩, ⟨isComparison, notFloat⟩, negates⟩ := applies
  exact standsFor_not (standsFor_negation isComparison notFloat negates)

theorem standsFor_deMorgan {expr result : Expr} (applies : deMorgan? expr = some result) :
    result.StandsFor expr := by
  simp [deMorgan?] at applies
  obtain ⟨op, lhs, rhs, ⟨innerType, dtype, rfl⟩, isLogical, left, negatesLeft, right, negatesRight,
    builds⟩ := applies
  obtain ⟨outerLogical, outerComparison⟩ : (if op = .and then BinaryOp.or else .and).isLogical = true ∧
      (if op = .and then BinaryOp.or else .and).isComparison = false := by
    split <;> decide
  have notComparison := isComparison_of_isLogical isLogical
  have notProduct : op ≠ .mul := by rintro rfl; cases isLogical
  refine ⟨fun sizes => ?_, fun type typed => ?_⟩
  · have built := load_binary? sizes builds
    obtain ⟨-, rfl⟩ := not?_eq_some negatesLeft
    obtain ⟨-, rfl⟩ := not?_eq_some negatesRight
    rw [combined, if_pos outerLogical, load, load] at built
    rw [load, load_binary_eq sizes (isInert_of_ne notProduct _ _), combined, if_pos isLogical]
    split_ifs at built ⊢ <;> omega
  · obtain ⟨-, inner, -⟩ := hasType_not.mp typed
    obtain ⟨operand, isLeft, isRight, -, -, rfl⟩ := hasType_binary.mp inner
    rw [binaryType, if_neg (by simp [notComparison])]
    exact (isLeft.not? negatesLeft).arithmetic (isRight.not? negatesRight) outerComparison builds

/-! ### Two conditions -/

theorem standsFor_complement {expr result : Expr} (applies : complement? expr = some result) :
    result.StandsFor expr := by
  simp [complement?] at applies
  obtain ⟨_, _, _, _, _, rfl⟩ := applies
  exact standsFor_ofInt expr _

theorem standsFor_contradiction {evidence : Evidence} {expr result : Expr}
    (applies : contradiction? evidence expr = some result) : result.StandsFor expr := by
  simp [contradiction?] at applies
  obtain ⟨op, first, second, -, applies⟩ := applies
  split at applies
  · simp at applies
    obtain ⟨-, rfl⟩ := applies
    exact standsFor_ofInt expr 0
  · simp at applies
    obtain ⟨-, rfl⟩ := applies
    exact standsFor_ofInt expr 1
  · cases applies

theorem standsFor_mergeRanges {evidence : Evidence} {expr result : Expr}
    (applies : mergeRanges? evidence expr = some result) : result.StandsFor expr := by
  simp [mergeRanges?] at applies
  obtain ⟨op, lhs, rhs, ⟨dtype, rfl⟩, op', first, second, found, applies⟩ := applies
  obtain ⟨sameOp, isPart⟩ : op' = op ∧ (op' = .and ∨ op' = .or) ∧ (result = lhs ∨ result = rhs) := by
    simp [asRanges?, asBinary?] at found
    obtain ⟨_, -, -, same⟩ := found
    refine ⟨same.symm, ?_⟩
    split at applies
    · split at applies
      · cases applies
        exact ⟨.inl rfl, .inl rfl⟩
      · cases applies
        exact ⟨.inr rfl, by split <;> simp⟩
      · cases applies
    · obtain ⟨-, applies⟩ := Option.ite_none_right_eq_some.mp applies
      split at applies
      · cases applies
        exact ⟨.inl rfl, .inr rfl⟩
      · cases applies
        exact ⟨.inr rfl, .inl rfl⟩
      · cases applies
  have notComparison : op.isComparison = false := by
    rcases sameOp ▸ isPart.1 with rfl | rfl <;> rfl
  rcases isPart.2 with rfl | rfl
  · exact standsFor_lhs notComparison
  · exact standsFor_rhs notComparison

/-! ### Known conditions -/

theorem standsFor_knownLiteral {evidence : Evidence} {expr result : Expr}
    (applies : knownLiteral? evidence expr = some result) : result.StandsFor expr := by
  simp [knownLiteral?] at applies
  obtain ⟨⟨⟨isBool, isScalar⟩, -⟩, found⟩ := applies
  have isType : ∀ type, expr.HasType type → type = .bool := by
    rintro type ⟨coherent, rfl⟩
    exact coherent.sound.eq_bool isBool (of_decide_eq_true isScalar)
  rcases found with ⟨-, rfl⟩ | ⟨-, rfl⟩ <;> exact standsFor_ofBool isType _

/-- The rule for what is known of conditions fits every expression. -/
theorem knownRules_fit (evidence : Evidence) (expr : Expr) :
    ∀ rule ∈ knownRules, rule.Fits evidence expr := by
  simp only [knownRules, List.forall_mem_cons, Rule.Fits]
  exact ⟨fun _ => standsFor_knownLiteral, by simp⟩

/-- Every rule for conjunctions, disjunctions and negations fits every expression. -/
theorem rules_fit (evidence : Evidence) (expr : Expr) :
    ∀ rule ∈ rules, rule.Fits evidence expr := by
  simp only [rules, List.forall_mem_cons, Rule.pure, Rule.Fits]
  exact ⟨fun _ => standsFor_doubleNegation, fun _ => standsFor_negateComparison,
    fun _ => standsFor_deMorgan, fun _ => standsFor_complement, fun _ => standsFor_contradiction,
    fun _ => standsFor_mergeRanges, by simp⟩

end IndexAlgebra.Reduction.Conditions

namespace IndexAlgebra.Reduction.Choices

open IndexAlgebra.Expr

attribute [local simp] Option.bind_eq_some_iff Option.guard_eq_some'

/-! ### Choices of either kind -/

variable {expr cond onTrue onFalse result : Expr}

theorem asChoice?_eq_some (found : asChoice? expr = some (cond, onTrue, onFalse)) :
    (∃ dtype, expr = .select dtype cond onTrue onFalse) ∨
      ∃ dtype, expr = .call dtype .ifThenElse [cond, onTrue, onFalse] := by
  unfold asChoice? at found
  split at found <;> cases found
  · exact .inl ⟨_, rfl⟩
  · exact .inr ⟨_, rfl⟩

/-- A choice is one heavier than the heaviest of its condition and its two values. -/
theorem load_choice (found : asChoice? expr = some (cond, onTrue, onFalse)) (sizes : Variable → Nat) :
    expr.load sizes =
      max 1 (max (cond.load sizes) (max (onTrue.load sizes) (onFalse.load sizes))) + 1 := by
  rcases asChoice?_eq_some found with ⟨dtype, rfl⟩ | ⟨dtype, rfl⟩
  · rw [load]
  · simp only [load, loadList]
    omega

/-- The values of a choice have its type. -/
theorem hasType_choice {type : DataType} (found : asChoice? expr = some (cond, onTrue, onFalse))
    (typed : expr.HasType type) :
    cond.Coherent ∧ onTrue.HasType type ∧ onFalse.HasType type := by
  rcases asChoice?_eq_some found with ⟨dtype, rfl⟩ | ⟨dtype, rfl⟩
  · exact hasType_select typed
  · obtain ⟨coherent, rfl⟩ := typed
    rw [Coherent, allCoherent_iff] at coherent
    obtain ⟨operands, -, -, isTaken, isOther⟩ := coherent
    exact ⟨operands cond (by simp), ⟨operands onTrue (by simp), isTaken⟩,
      operands onFalse (by simp), isOther⟩

/-- A value of a choice stands for it. -/
theorem standsFor_value (found : asChoice? expr = some (cond, onTrue, onFalse)) :
    onTrue.StandsFor expr ∧ onFalse.StandsFor expr := by
  refine ⟨⟨fun sizes => ?_, fun type typed => (hasType_choice found typed).2.1⟩,
    fun sizes => ?_, fun type typed => (hasType_choice found typed).2.2⟩
  all_goals
    rw [load_choice found sizes]
    omega

/-- The choice between values that are no heavier than those of a choice stands for it, if it has a
condition that stands for the condition. -/
theorem standsFor_rebuild {cond' taken other : Expr}
    (found : asChoice? expr = some (cond, onTrue, onFalse)) (condition : cond'.StandsFor cond)
    (lighter : ∀ sizes, max (taken.load sizes) (other.load sizes) + 1 ≤ expr.load sizes)
    (typed : ∀ type, expr.HasType type → taken.HasType type ∧ other.HasType type)
    (builds : rebuild? expr cond' taken other = some result) : result.StandsFor expr := by
  have choice := load_choice found
  refine ⟨fun sizes => ?_, fun type isType => ?_⟩
  · have light := condition.lighter sizes
    have values := lighter sizes
    have whole := choice sizes
    rcases asChoice?_eq_some found with ⟨dtype, rfl⟩ | ⟨dtype, rfl⟩
    · have built := load_select? sizes builds
      omega
    · cases builds
      simp only [load, loadList] at whole values ⊢
      omega
  · obtain ⟨isCond, -, -⟩ := hasType_choice found isType
    obtain ⟨isTaken, isOther⟩ := typed type isType
    have isCond' := condition.typed _ isCond.hasType
    rcases asChoice?_eq_some found with ⟨dtype, rfl⟩ | ⟨dtype, rfl⟩
    · exact HasType.select? isCond'.coherent isTaken isOther builds
    · cases builds
      obtain ⟨coherent, rfl⟩ := isType
      rw [Coherent] at coherent
      refine ⟨?_, rfl⟩
      rw [Coherent, allCoherent_iff]
      refine ⟨?_, coherent.2.1, isCond'.isType.trans coherent.2.2.1, isTaken.isType, isOther.isType⟩
      simpa using ⟨isCond'.coherent, isTaken.coherent, isOther.coherent⟩

theorem standsFor_ofConstant (applies : ofConstant? expr = some result) : result.StandsFor expr := by
  simp [ofConstant?] at applies
  obtain ⟨cond, onTrue, onFalse, found, ⟨-, rfl⟩ | ⟨-, rfl⟩⟩ := applies
  · exact (standsFor_value found).2
  · exact (standsFor_value found).1

theorem standsFor_ofSame (applies : ofSame? expr = some result) : result.StandsFor expr := by
  simp [ofSame?] at applies
  obtain ⟨cond, found⟩ := applies
  exact (standsFor_value found).1

theorem standsFor_ofNegated (applies : ofNegated? expr = some result) : result.StandsFor expr := by
  simp [ofNegated?] at applies
  obtain ⟨onTrue, onFalse, cond, ⟨dtype, found⟩, builds⟩ := applies
  refine standsFor_rebuild found (Conditions.standsFor_not (.refl cond)) (fun sizes => ?_)
    (fun type typed => (hasType_choice found typed).2.symm) builds
  rw [load_choice found sizes]
  omega

theorem standsFor_toMinMax (applies : toMinMax? expr = some result) : result.StandsFor expr := by
  unfold toMinMax? at applies
  split at applies
  next dtype cond onTrue onFalse =>
    simp at applies
    obtain ⟨-, op, a, b, ⟨condType, rfl⟩, isOrder, applies⟩ := applies
    have notProduct : op ≠ .mul := by rcases isOrder with rfl | rfl <;> decide
    have notLogical : op.isLogical = false := by rcases isOrder with rfl | rfl <;> rfl
    have lighter : ∀ sizes, combined .min (a.load sizes) (b.load sizes) ≤
        (Expr.select dtype (binary condType op a b) onTrue onFalse).load sizes := by
      intro sizes
      rw [load, load_binary_eq sizes (isInert_of_ne notProduct a b),
        combined_congr (notLogical.trans rfl : op.isLogical = BinaryOp.min.isLogical)]
      omega
    split at applies
    next same =>
      obtain ⟨rfl, rfl⟩ := same
      refine ⟨fun sizes => (load_binary? sizes applies).trans (lighter sizes), fun type typed => ?_⟩
      obtain ⟨-, isTrue, isFalse⟩ := hasType_select typed
      exact isTrue.arithmetic isFalse rfl applies
    next =>
      obtain ⟨⟨rfl, rfl⟩, builds⟩ := Option.ite_none_right_eq_some.mp applies
      refine ⟨fun sizes => (load_binary? sizes builds).trans (lighter sizes), fun type typed => ?_⟩
      obtain ⟨-, isTrue, isFalse⟩ := hasType_select typed
      exact isFalse.arithmetic isTrue rfl builds
  next => cases applies

theorem standsFor_ofNested (applies : ofNested? expr = some result) : result.StandsFor expr := by
  simp [ofNested?] at applies
  obtain ⟨cond, onTrue, onFalse, found, applies⟩ := applies
  have whole := load_choice found
  split at applies
  next inner taken other _ isInner =>
    obtain ⟨isChoice, -⟩ := Option.filter_eq_some_iff.mp isInner
    refine standsFor_rebuild found (.refl cond) (fun sizes => ?_) (fun type typed => ?_) applies
    · have light := (standsFor_value isChoice).1.lighter sizes
      rw [whole]
      omega
    · obtain ⟨-, isTaken, isOther⟩ := hasType_choice found typed
      exact ⟨(standsFor_value isChoice).1.typed type isTaken, isOther⟩
  next inner taken other _ isInner =>
    obtain ⟨isChoice, -⟩ := Option.filter_eq_some_iff.mp isInner
    refine standsFor_rebuild found (.refl cond) (fun sizes => ?_) (fun type typed => ?_) applies
    · have light := (standsFor_value isChoice).2.lighter sizes
      rw [whole]
      omega
    · obtain ⟨-, isTaken, isOther⟩ := hasType_choice found typed
      exact ⟨isTaken, (standsFor_value isChoice).2.typed type isOther⟩
  next => cases applies

/-- Every rule for choices fits every expression. -/
theorem rules_fit (evidence : Evidence) (expr : Expr) :
    ∀ rule ∈ rules, rule.Fits evidence expr := by
  simp only [rules, List.forall_mem_cons, Rule.pure, Rule.Fits]
  exact ⟨fun _ => standsFor_ofConstant, fun _ => standsFor_ofSame, fun _ => standsFor_ofNegated,
    fun _ => standsFor_toMinMax, fun _ => standsFor_ofNested, by simp⟩

end IndexAlgebra.Reduction.Choices

namespace IndexAlgebra.Reduction.Conversions

open IndexAlgebra.Expr

attribute [local simp] Option.bind_eq_some_iff Option.guard_eq_some'

/-! ### Conversions -/

variable {expr result : Expr}

/-- A constant converted to a scalar type has the type and weighs nothing. -/
theorem convert?_spec {dtype : DataType} {value : Expr} (scalar : dtype.isVector = false)
    (converts : convert? dtype value = some result) :
    (∀ sizes, result.load sizes = 0) ∧ (dtype.Sound → result.HasType dtype) := by
  have truth : dtype.isBool = true → ∀ value, (∀ sizes, (ofBool value).load sizes = 0) ∧
      (dtype.Sound → (ofBool value).HasType dtype) := by
    refine fun isBool value => ⟨fun sizes => rfl, fun sound => ?_⟩
    rw [sound.eq_bool isBool (sound.lanes_eq_one scalar)]
    exact hasType_ofBool value
  have float : dtype.isFloat = true → ∀ value, (∀ sizes, (ofFloat dtype value).load sizes = 0) ∧
      (dtype.Sound → (ofFloat dtype value).HasType dtype) :=
    fun isFloat value => ⟨fun sizes => by simp [scalar], fun sound => hasType_ofFloat sound isFloat value⟩
  have integer : ∀ value, (∀ sizes, (ofInt dtype value).load sizes = 0) ∧
      (dtype.Sound → (ofInt dtype value).HasType dtype) :=
    fun value => ⟨fun sizes => by simp [scalar], fun sound => hasType_ofInt sound value⟩
  unfold convert? at converts
  split at converts
  · split at converts
    next isBool =>
      cases converts
      exact truth isBool _
    split at converts
    next isFloat =>
      cases converts
      exact float isFloat _
    next =>
      obtain ⟨-, equal⟩ := Option.ite_none_right_eq_some.mp converts
      cases equal
      exact integer _
  · split at converts
    next isFloat =>
      cases converts
      exact float isFloat _
    next =>
      simp [constant?] at converts
      obtain ⟨-, number, -, -, rfl⟩ := converts
      exact integer number
  · obtain ⟨-, equal⟩ := Option.ite_none_left_eq_some.mp converts
    cases equal
    exact integer _
  · cases converts

theorem standsFor_foldCast (applies : foldCast? expr = some result) : result.StandsFor expr := by
  unfold foldCast? at applies
  split at applies
  next dtype value =>
    obtain ⟨isScalar, converts⟩ := Option.ite_none_right_eq_some.mp applies
    have scalar : dtype.isVector = false := by
      simp_all [DataType.isScalar, DataType.isVector]
    obtain ⟨weightless, typed⟩ := convert?_spec scalar converts
    refine ⟨fun sizes => (weightless sizes).le.trans (Nat.zero_le _), fun type isType => ?_⟩
    obtain ⟨rfl, -, sound, -⟩ := hasType_cast.mp isType
    exact typed sound
  next => cases applies

theorem standsFor_removeCast (applies : removeCast? expr = some result) : result.StandsFor expr := by
  unfold removeCast? at applies
  split at applies
  next dtype value =>
    obtain ⟨sameType, equal⟩ := Option.ite_none_right_eq_some.mp applies
    cases equal
    refine ⟨fun sizes => Nat.le_succ _, fun type typed => ?_⟩
    obtain ⟨rfl, operand, -⟩ := hasType_cast.mp typed
    exact ⟨operand, sameType⟩
  next => cases applies

theorem standsFor_collapseCast {evidence : Evidence}
    (applies : collapseCast? evidence expr = some result) : result.StandsFor expr := by
  unfold collapseCast? at applies
  split at applies
  next outer middle x =>
    simp at applies
    obtain ⟨-, -, equal⟩ := applies
    have parts : ∀ type, (Expr.cast outer (.cast middle x)).HasType type →
        outer = type ∧ x.Coherent ∧ type.Sound ∧ type.lanes = x.dtype.lanes := by
      intro type typed
      obtain ⟨rfl, inner, sound, outerLanes⟩ := hasType_cast.mp typed
      obtain ⟨-, operand, -, innerLanes⟩ := hasType_cast.mp inner.hasType
      exact ⟨rfl, operand, sound, outerLanes.trans innerLanes⟩
    split at equal
    next sameType =>
      cases equal
      refine ⟨fun sizes => ?_, fun type typed => ?_⟩
      · rw [load, load]
        omega
      · obtain ⟨rfl, operand, -⟩ := parts type typed
        exact ⟨operand, sameType⟩
    next =>
      cases equal
      refine ⟨fun sizes => Nat.le_succ _, fun type typed => hasType_cast.mpr (parts type typed)⟩
  next => cases applies

/-- Every rule for conversions fits every expression. -/
theorem rules_fit (evidence : Evidence) (expr : Expr) :
    ∀ rule ∈ rules, rule.Fits evidence expr := by
  simp only [rules, List.forall_mem_cons, Rule.pure, Rule.Fits]
  exact ⟨fun _ => standsFor_foldCast, fun _ => standsFor_removeCast, fun _ => standsFor_collapseCast,
    by simp⟩

end IndexAlgebra.Reduction.Conversions
