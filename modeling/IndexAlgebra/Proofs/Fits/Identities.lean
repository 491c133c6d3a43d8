/-
This file proves that the rules that hold for every operator make expressions that stand for the ones
they replace.
-/
import IndexAlgebra.Proofs.StandsFor
import IndexAlgebra.Reduction.Identities

namespace IndexAlgebra.Reduction.Identities

open IndexAlgebra.Expr

attribute [local simp] Option.bind_eq_some_iff Option.guard_eq_some'

/-! ### Constants -/

theorem standsFor_foldInts {dtype constType otherType : DataType} {op : BinaryOp} {left right : Int}
    {result : Expr} (applies : foldInts? constType op left right = some result) :
    result.StandsFor (binary dtype op (intConst constType left) (intConst otherType right)) := by
  have arithmetic : op.isComparison = false → ∀ value, constant? constType value = some result →
      result.StandsFor (binary dtype op (intConst constType left) (intConst otherType right)) := by
    intro notComparison value builds
    have constant : result.StandsFor (intConst constType left) := standsFor_constantLike? builds
    exact constant.trans (standsFor_lhs notComparison)
  have comparison : op.isComparison = true → ∀ value, some (ofBool value) = some result →
      result.StandsFor (binary dtype op (intConst constType left) (intConst otherType right)) := by
    rintro isComparison value equal
    cases equal
    refine standsFor_ofBool (fun type typed => ?_) value
    obtain ⟨operand, ⟨isLeft, rfl⟩, -, -, -, rfl⟩ := hasType_binary.mp typed
    rw [Coherent] at isLeft
    rw [binaryType, if_pos isComparison, Expr.dtype, isLeft.2]
    rfl
  cases op with
  | add | sub | mul | min | max => exact arithmetic rfl _ applies
  | truncDiv | truncMod | floorDiv | floorMod =>
    exact arithmetic rfl _ (Option.ite_none_left_eq_some.mp applies).2
  | eq | ne | lt | le | gt | ge => exact comparison rfl _ applies
  | and | or => cases applies

theorem standsFor_foldFloats {dtype constType otherType : DataType} {op : BinaryOp}
    {left right : Binary64} {result : Expr}
    (applies : foldFloats? constType op left right = some result) :
    result.StandsFor (binary dtype op (floatConst constType left) (floatConst otherType right)) := by
  have arithmetic : op.isComparison = false → ∀ value, some (ofFloat constType value) = some result →
      result.StandsFor (binary dtype op (floatConst constType left) (floatConst otherType right)) := by
    rintro notComparison value equal
    cases equal
    refine StandsFor.trans ⟨fun sizes => ?_, fun type typed => ?_⟩ (standsFor_lhs notComparison)
    · rw [load_ofFloat, load]
      split_ifs <;> omega
    · have coherent := typed.coherent
      rw [Coherent] at coherent
      rw [← typed.isType]
      exact hasType_ofFloat typed.coherent.sound coherent.1 value
  have comparison : op.isComparison = true → ∀ value, some (ofBool value) = some result →
      result.StandsFor (binary dtype op (floatConst constType left) (floatConst otherType right)) := by
    rintro isComparison value equal
    cases equal
    refine standsFor_ofBool (fun type typed => ?_) value
    obtain ⟨operand, ⟨isLeft, rfl⟩, -, -, -, rfl⟩ := hasType_binary.mp typed
    rw [Coherent] at isLeft
    rw [binaryType, if_pos isComparison, Expr.dtype, isLeft.2]
    rfl
  cases op with
  | add | sub | mul | min | max => exact arithmetic rfl _ applies
  | truncDiv => exact arithmetic rfl _ (Option.ite_none_left_eq_some.mp applies).2
  | eq | ne | lt | le | gt | ge => exact comparison rfl _ applies
  | truncMod | floorDiv | floorMod | and | or => cases applies

theorem standsFor_foldBools {dtype constType otherType : DataType} {op : BinaryOp}
    {left right : Bool} {result : Expr} (applies : foldBools? op left right = some result) :
    result.StandsFor (binary dtype op (boolConst constType left) (boolConst otherType right)) := by
  have truth : ∀ value, some (ofBool value) = some result →
      result.StandsFor (binary dtype op (boolConst constType left) (boolConst otherType right)) := by
    rintro value equal
    cases equal
    refine standsFor_ofBool (fun type typed => ?_) value
    obtain ⟨operand, ⟨isLeft, rfl⟩, -, -, -, rfl⟩ := hasType_binary.mp typed
    rw [Coherent] at isLeft
    rw [binaryType, Expr.dtype, isLeft]
    split <;> rfl
  cases op with
  | and | or | eq | ne => exact truth _ applies
  | _ => cases applies

theorem standsFor_foldConstants {expr result : Expr} (applies : foldConstants? expr = some result) :
    result.StandsFor expr := by
  unfold foldConstants? at applies
  split at applies
  · exact standsFor_foldInts applies
  · exact standsFor_foldFloats applies
  · exact standsFor_foldBools applies
  · cases applies
    refine standsFor_ofBool (fun type typed => ?_) _
    have coherent := typed.coherent
    rw [Coherent, Coherent] at coherent
    rw [← typed.isType, Expr.dtype, coherent.2.1]
    exact coherent.1
  · cases applies

theorem isSplat_retype? {dtype : DataType} {expr retyped : Expr} (vector : dtype.isVector = true)
    (retypes : retype? dtype expr = some retyped) : retyped.isSplat = true := by
  have ofFloats : ∀ value, (ofFloat dtype value).isSplat = true := by
    intro value
    rw [ofFloat, if_pos vector, isSplat, vector]
    rfl
  have scalars : ∀ expr, retypeScalar? dtype expr = some retyped → retyped.isSplat = true := by
    intro expr retypes
    unfold retypeScalar? at retypes
    split at retypes
    · obtain ⟨-, equal⟩ := Option.ite_none_right_eq_some.mp retypes
      exact Option.some.inj equal ▸ isSplat_ofInt vector _
    · obtain ⟨-, equal⟩ := Option.ite_none_right_eq_some.mp retypes
      exact Option.some.inj equal ▸ ofFloats _
    · cases retypes
  unfold retype? at retypes
  split at retypes <;> exact scalars _ retypes

/-- Swapping the operands of an inert product makes it no heavier. -/
theorem load_swap_of_isInert {op : BinaryOp} {lhs rhs built : Expr} (sizes : Variable → Nat)
    (wide : lhs.isWideConst = true) (splat : rhs.isSplat = true) (product : op = .mul)
    (builds : binary? op rhs lhs = some built) : built.load sizes ≤ 2 := by
  obtain ⟨-, rfl, -⟩ := binary?_unify builds
  rcases unify_cases rhs lhs with unified | ⟨retyped, retypes, unified⟩ | ⟨retyped, retypes, unified⟩
  · rw [unified, load, if_pos (by simp [isInert, wide, splat, product])]
  · have vector : rhs.dtype.isVector = true := by
      cases rhs <;> simp_all [isSplat, Expr.dtype]
    refine (load_binary_le sizes _ op _ _).trans ?_
    rw [unified, load_of_isSplat sizes splat, load_of_isSplat sizes (isSplat_retype? vector retypes)]
    exact combined_le op 1 1
  · have vector : lhs.dtype.isVector = true := by
      cases lhs <;> simp_all [isWideConst, Expr.dtype]
    rw [unified, load,
      if_pos (by simp [isInert, wide, isSplat_retype? vector retypes, product])]

theorem standsFor_constantToRight {expr result : Expr} (fits : hasConstantOnLeft expr = true)
    (applies : constantToRight? expr = some result) : result.StandsFor expr := by
  simp [constantToRight?] at applies
  obtain ⟨op, lhs, rhs, ⟨dtype, rfl⟩, builds⟩ := applies
  by_cases inert : isInert op lhs rhs = true
  · have isConst : lhs.isConst = true := by
      simp only [hasConstantOnLeft, asBinary?, Bool.and_eq_true] at fits
      exact fits.1.2
    have notSplat : lhs.isSplat = false := by
      cases lhs <;> simp_all [IndexAlgebra.Expr.isConst, isSplat]
    simp only [isInert, notSplat, Bool.false_and, Bool.or_false, Bool.and_eq_true, beq_iff_eq] at inert
    obtain ⟨rfl, wide, splat⟩ := inert
    refine ⟨fun sizes => ?_, fun type typed => ?_⟩
    · rw [load, if_pos (by simp [isInert, wide, splat])]
      exact load_swap_of_isInert sizes wide splat rfl builds
    · obtain ⟨operand, left, right, -, -, rfl⟩ := hasType_binary.mp typed
      exact right.binary? left builds
  · exact (StandsFor.refl lhs).combine_swap (.refl rhs) rfl rfl (by simpa using inert) builds

theorem standsFor_knownValue {evidence : Evidence} {expr result : Expr}
    (applies : knownValue? evidence expr = some result) : result.StandsFor expr := by
  simp [knownValue?] at applies
  obtain ⟨-, value, -, builds⟩ := applies
  exact standsFor_constantLike? builds

/-! ### Zero, one and equal operands -/

theorem standsFor_addZero {expr result : Expr} (applies : addZero? expr = some result) :
    result.StandsFor expr := by
  simp [addZero?] at applies
  obtain ⟨op, ⟨constType, dtype, rfl⟩, rfl | rfl, -⟩ := applies <;> exact standsFor_lhs rfl

theorem standsFor_subtractSelf {expr result : Expr} (applies : subtractSelf? expr = some result) :
    result.StandsFor expr := by
  simp [subtractSelf?] at applies
  obtain ⟨-, -, rfl⟩ := applies
  exact standsFor_ofInt expr 0

theorem standsFor_multiplyOne {expr result : Expr} (applies : multiplyOne? expr = some result) :
    result.StandsFor expr := by
  simp [multiplyOne?] at applies
  obtain ⟨op, ⟨constType, dtype, rfl⟩, (rfl | rfl) | rfl, -⟩ := applies <;>
    exact standsFor_lhs rfl

theorem standsFor_multiplyZero {expr result : Expr} (applies : multiplyZero? expr = some result) :
    result.StandsFor expr := by
  simp [multiplyZero?] at applies
  obtain ⟨-, -, rfl⟩ := applies
  exact standsFor_ofInt expr 0

theorem standsFor_modOne {expr result : Expr} (applies : modOne? expr = some result) :
    result.StandsFor expr := by
  simp [modOne?] at applies
  obtain ⟨op, -, -, rfl⟩ := applies
  exact standsFor_ofInt expr 0

theorem standsFor_divideSelf {evidence : Evidence} {expr result : Expr}
    (applies : divideSelf? evidence expr = some result) : result.StandsFor expr := by
  simp [divideSelf?] at applies
  obtain ⟨op, operand, -, -, -, rfl⟩ := applies
  exact standsFor_ofInt expr 1

theorem standsFor_sameOperands {expr result : Expr} (applies : sameOperands? expr = some result) :
    result.StandsFor expr := by
  simp [sameOperands?] at applies
  obtain ⟨op, operand, ⟨dtype, rfl⟩, applies⟩ := applies
  split at applies
  next kept =>
    cases applies
    refine standsFor_lhs ?_
    rcases kept with (rfl | rfl) | isLogical
    · rfl
    · rfl
    · exact isComparison_of_isLogical isLogical
  next =>
    simp at applies
    obtain ⟨-, rfl⟩ := applies
    exact standsFor_ofInt (binary dtype op operand operand) _

theorem standsFor_logicalConstant {expr result : Expr}
    (applies : logicalConstant? expr = some result) : result.StandsFor expr := by
  simp [logicalConstant?] at applies
  obtain ⟨op, lhs, rhs, ⟨dtype, rfl⟩, isLogical, applies⟩ := applies
  have notComparison := isComparison_of_isLogical isLogical
  have truth : ∀ value, lhs.asBool? = some value ∨ rhs.asBool? = some value →
      (ofBool value).StandsFor (binary dtype op lhs rhs) := by
    intro value isConst
    refine standsFor_ofBool (fun type typed => ?_) value
    obtain ⟨operand, left, right, -, -, rfl⟩ := hasType_binary.mp typed
    have isBool : operand = .bool := by
      rcases isConst with isConst | isConst <;> obtain ⟨constType, rfl⟩ := asBool?_eq_some.mp isConst
      · have coherent := left.coherent
        rw [Coherent] at coherent
        exact left.isType.symm.trans coherent
      · have coherent := right.coherent
        rw [Coherent] at coherent
        exact right.isType.symm.trans coherent
    rw [binaryType, if_neg (by simp [notComparison]), isBool]
  split at applies
  next value isConst =>
    split at applies <;> cases applies
    · exact standsFor_rhs notComparison
    · exact truth value (.inl isConst)
  next value _ isConst =>
    split at applies <;> cases applies
    · exact standsFor_lhs notComparison
    · exact truth value (.inr isConst)
  next => cases applies

/-! ### The rules -/

/-- Every rule of this kind fits every expression. -/
theorem rules_fit (evidence : Evidence) (expr : Expr) :
    ∀ rule ∈ rules, rule.Fits evidence expr := by
  simp only [rules, List.forall_mem_cons, Rule.pure, Rule.Fits]
  exact ⟨fun _ => standsFor_foldConstants, fun _ => standsFor_constantToRight,
    fun _ => standsFor_logicalConstant, fun _ => standsFor_addZero, fun _ => standsFor_subtractSelf,
    fun _ => standsFor_multiplyOne, fun _ => standsFor_multiplyZero, fun _ => standsFor_modOne,
    fun _ => standsFor_divideSelf, fun _ => standsFor_sameOperands, fun _ => standsFor_knownValue,
    by simp⟩

end IndexAlgebra.Reduction.Identities
