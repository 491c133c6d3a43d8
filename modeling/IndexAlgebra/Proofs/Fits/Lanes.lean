/-
This file proves that the rules for vectors make expressions that stand for the ones they replace. An
operator that moves inside broadcasts and ramps is applied to the scalars in their lanes.
-/
import IndexAlgebra.Proofs.StandsFor
import IndexAlgebra.Reduction.Lanes

namespace IndexAlgebra.Reduction.Lanes

open IndexAlgebra.Expr

attribute [local simp] Option.bind_eq_some_iff Option.guard_eq_some'

theorem isInert_of_vectors {op : BinaryOp} {lhs rhs : Expr} (left : lhs.isWideConst = false)
    (right : rhs.isWideConst = false) : isInert op lhs rhs = false := by
  simp [isInert, left, right]

/-- The type of a node with vector operands has the type of a node with their lanes as its
element. -/
theorem binaryType_element (op : BinaryOp) (dtype : DataType) :
    binaryType op dtype.element = (binaryType op dtype).element := by
  unfold binaryType
  split <;> rfl

theorem succ_combined_le (op : BinaryOp) (first second : Nat) :
    combined op first second + 1 ≤ combined op (first + 1) (second + 1) := by
  unfold combined
  rw [if_neg (by omega : ¬(first + 1 = 0 ∧ second + 1 = 0))]
  split_ifs <;> omega

theorem standsFor_broadcastOp {expr result : Expr} (applies : broadcastOp? expr = some result) :
    result.StandsFor expr := by
  simp [broadcastOp?] at applies
  obtain ⟨op, a, lanes, b, ⟨firstType, lanes', secondType, dtype, rfl⟩, scalar, builds, rfl⟩ := applies
  refine ⟨fun sizes => ?_, fun type typed => ?_⟩
  · have built := load_binary? sizes builds
    rw [load_binary_eq sizes (isInert_of_vectors rfl rfl)]
    simp only [mkBroadcast, load]
    exact (Nat.succ_le_succ built).trans (succ_combined_le op _ _)
  · obtain ⟨operand, left, right, -, -, rfl⟩ := hasType_binary.mp typed
    obtain ⟨-, isA, rfl, several⟩ := hasType_broadcast.mp left
    obtain ⟨-, isB, -, -⟩ := hasType_broadcast.mp right
    have isScalar := isA.binary? isB builds
    rw [binaryType_element] at isScalar
    rw [← lanes_binaryType op] at several ⊢
    exact isScalar.mkBroadcast rfl several

/-- A ramp whose base and stride are lighter than two operands together is no heavier than a node of
the operands. -/
theorem load_ramp_le_combined {op : BinaryOp} (notLogical : op.isLogical = false)
    {base stride result : Expr} {lanes : Nat} (builds : ramp? base stride lanes = some result)
    {sizes : Variable → Nat} {first second : Nat} (heavy : 1 ≤ first ∧ 1 ≤ second)
    (lightBase : base.load sizes < first + second)
    (lightStride : stride.load sizes < first + second) :
    result.load sizes ≤ combined op first second := by
  have built := load_ramp? sizes builds
  rw [combined, if_neg (by omega), if_neg (by simp [notLogical])]
  omega

theorem standsFor_rampAddRamp {expr result : Expr} (applies : rampAddRamp? expr = some result) :
    result.StandsFor expr := by
  simp [rampAddRamp?] at applies
  obtain ⟨op, a, s, lanes, b, t, ⟨firstType, lanes', secondType, dtype, rfl⟩, isSum, base, buildsBase,
    stride, buildsStride, builds⟩ := applies
  obtain ⟨notLogical, notComparison⟩ : op.isLogical = false ∧ op.isComparison = false := by
    rcases isSum with rfl | rfl <;> exact ⟨rfl, rfl⟩
  refine ⟨fun sizes => ?_, fun type typed => ?_⟩
  · have lightBase := (load_binary? sizes buildsBase).trans (combined_le op _ _)
    have lightStride := (load_binary? sizes buildsStride).trans (combined_le op _ _)
    rw [load_binary_eq sizes (isInert_of_vectors rfl rfl), load, load]
    exact load_ramp_le_combined notLogical builds (by omega) (by omega) (by omega)
  · obtain ⟨operand, left, right, -, -, rfl⟩ := hasType_binary.mp typed
    obtain ⟨-, isA, isS, rfl, several⟩ := hasType_ramp.mp left
    obtain ⟨-, isB, isT, -, -⟩ := hasType_ramp.mp right
    rw [binaryType, if_neg (by simp [notComparison])]
    exact (isA.arithmetic isB notComparison buildsBase).ramp?
      (isS.arithmetic isT notComparison buildsStride) several builds

/-- A ramp and a broadcast beside it, of which the ramp that is built has the sum or the product of
the base and the value as its base. -/
theorem standsFor_ramp_broadcast {op : BinaryOp} (notLogical : op.isLogical = false)
    (notComparison : op.isComparison = false) {lhs rhs a s b base stride result : Expr}
    {dtype firstType secondType : DataType} {lanes lanes' : Nat}
    (operands : lhs = ramp firstType a s lanes ∧ rhs = broadcast secondType b lanes' ∨
      lhs = broadcast secondType b lanes' ∧ rhs = ramp firstType a s lanes)
    (lightBase : ∀ sizes, base.load sizes ≤ max (a.load sizes) 1 + max (b.load sizes) 1)
    (lightStride : ∀ sizes, stride.load sizes ≤ max (s.load sizes) 1 + max (b.load sizes) 1)
    (isBase : ∀ type, a.HasType type → b.HasType type → base.HasType type)
    (isStride : ∀ type, s.HasType type → b.HasType type → stride.HasType type)
    (builds : ramp? base stride lanes = some result) :
    result.StandsFor (binary dtype op lhs rhs) := by
  refine ⟨fun sizes => ?_, fun type typed => ?_⟩
  · have first := lightBase sizes
    have step := lightStride sizes
    rcases operands with ⟨rfl, rfl⟩ | ⟨rfl, rfl⟩ <;>
      rw [load_binary_eq sizes (isInert_of_vectors rfl rfl), load, load] <;>
      exact load_ramp_le_combined notLogical builds (by omega) (by omega) (by omega)
  · obtain ⟨operand, left, right, -, -, rfl⟩ := hasType_binary.mp typed
    obtain ⟨⟨-, isA, isS, rfl, several⟩, -, isB, -⟩ :
        (firstType = operand ∧ a.HasType operand.element ∧ s.HasType operand.element ∧
            operand.lanes = lanes ∧ 2 ≤ lanes) ∧
          secondType = operand ∧ b.HasType operand.element ∧ operand.lanes = lanes' ∧ 2 ≤ lanes' := by
      rcases operands with ⟨rfl, rfl⟩ | ⟨rfl, rfl⟩
      · exact ⟨hasType_ramp.mp left, hasType_broadcast.mp right⟩
      · exact ⟨hasType_ramp.mp right, hasType_broadcast.mp left⟩
    rw [binaryType, if_neg (by simp [notComparison])]
    exact (isBase _ isA isB).ramp? (isStride _ isS isB) several builds

/-- A sum or a difference of a ramp and a broadcast has the other operand's scalar beside the base. Where
the ramp is taken from the broadcast, its stride is negated. -/
theorem rampAddBroadcast?_cases {expr result : Expr} (applies : rampAddBroadcast? expr = some result) :
    ∃ dtype op firstType a s lanes secondType b lanes' base, (op = .add ∨ op = .sub) ∧
      ((expr = binary dtype op (ramp firstType a s lanes) (broadcast secondType b lanes') ∧
          binary? op a b = some base ∧ ramp? base s lanes = some result) ∨
        (expr = binary dtype op (broadcast secondType b lanes') (ramp firstType a s lanes) ∧
          binary? op b a = some base ∧ ∃ stride, ramp? base stride lanes = some result ∧
            (op = .add ∧ stride = s ∨
              op = .sub ∧ binary? .sub (ofInt s.dtype 0) s = some stride))) := by
  simp [rampAddBroadcast?] at applies
  obtain ⟨op, lhs, rhs, ⟨dtype, rfl⟩, isSum, applies⟩ := applies
  split at applies
  next a s lanes b lanes' isRamp isBroadcast =>
    obtain ⟨firstType, rfl⟩ := asRamp?_eq_some.mp isRamp
    obtain ⟨secondType, rfl⟩ := asBroadcast?_eq_some.mp isBroadcast
    obtain ⟨base, buildsBase, builds⟩ := Option.bind_eq_some_iff.mp applies
    exact ⟨_, _, _, _, _, _, _, _, _, _, isSum, .inl ⟨rfl, buildsBase, builds⟩⟩
  next b lanes' a s lanes isBroadcast isRamp _ =>
    obtain ⟨firstType, rfl⟩ := asRamp?_eq_some.mp isRamp
    obtain ⟨secondType, rfl⟩ := asBroadcast?_eq_some.mp isBroadcast
    split at applies
    next isAdd =>
      obtain ⟨base, buildsBase, builds⟩ := Option.bind_eq_some_iff.mp applies
      exact ⟨_, _, _, _, _, _, _, _, _, _, isSum,
        .inr ⟨rfl, buildsBase, _, builds, .inl ⟨isAdd, rfl⟩⟩⟩
    next notAdd =>
      obtain ⟨stride, buildsStride, applies⟩ := Option.bind_eq_some_iff.mp applies
      obtain ⟨base, buildsBase, builds⟩ := Option.bind_eq_some_iff.mp applies
      exact ⟨_, _, _, _, _, _, _, _, _, _, isSum,
        .inr ⟨rfl, buildsBase, _, builds, .inr ⟨isSum.resolve_left notAdd, buildsStride⟩⟩⟩
  next => cases applies

theorem standsFor_rampAddBroadcast {expr result : Expr}
    (applies : rampAddBroadcast? expr = some result) : result.StandsFor expr := by
  obtain ⟨dtype, op, firstType, a, s, lanes, secondType, b, lanes', base, isSum, shape⟩ :=
    rampAddBroadcast?_cases applies
  obtain ⟨notLogical, notComparison⟩ : op.isLogical = false ∧ op.isComparison = false := by
    rcases isSum with rfl | rfl <;> exact ⟨rfl, rfl⟩
  rcases shape with ⟨rfl, buildsBase, builds⟩ | ⟨rfl, buildsBase, stride, builds, isStride⟩
  · exact standsFor_ramp_broadcast notLogical notComparison (.inl ⟨rfl, rfl⟩)
      (fun sizes => (load_binary? sizes buildsBase).trans (combined_le op _ _))
      (fun sizes => by omega)
      (fun type isA isB => isA.arithmetic isB notComparison buildsBase)
      (fun type isS _ => isS) builds
  · refine standsFor_ramp_broadcast notLogical notComparison (.inr ⟨rfl, rfl⟩)
      (fun sizes => (load_binary? sizes buildsBase).trans
        ((combined_le op _ _).trans (Nat.add_comm _ _).le))
      (fun sizes => ?_) (fun type isA isB => isB.arithmetic isA notComparison buildsBase)
      (fun type isS _ => ?_) builds
    · rcases isStride with ⟨-, rfl⟩ | ⟨-, buildsStride⟩
      · omega
      · have light := (load_binary? sizes buildsStride).trans (combined_le .sub _ _)
        rw [load_ofInt] at light
        split_ifs at light <;> omega
    · rcases isStride with ⟨-, rfl⟩ | ⟨-, buildsStride⟩
      · exact isS
      · obtain ⟨coherent, rfl⟩ := isS
        exact (hasType_ofInt coherent.sound 0).arithmetic coherent.hasType rfl buildsStride

/-- A product of a ramp and a broadcast has the scalar of the broadcast beside the base and beside the
stride. -/
theorem rampMulBroadcast?_cases {expr result : Expr} (applies : rampMulBroadcast? expr = some result) :
    ∃ dtype lhs rhs a s lanes b base stride firstType secondType lanes', expr = binary dtype .mul lhs rhs ∧
      (lhs = ramp firstType a s lanes ∧ rhs = broadcast secondType b lanes' ∨
        lhs = broadcast secondType b lanes' ∧ rhs = ramp firstType a s lanes) ∧
      binary? .mul a b = some base ∧ binary? .mul s b = some stride ∧
      ramp? base stride lanes = some result := by
  simp [rampMulBroadcast?] at applies
  obtain ⟨lhs, rhs, ⟨dtype, rfl⟩, applies⟩ := applies
  split at applies
  next left right isRamp isBroadcast =>
    obtain ⟨a, s, lanes⟩ := left
    obtain ⟨b, lanes'⟩ := right
    obtain ⟨firstType, rfl⟩ := asRamp?_eq_some.mp isRamp
    obtain ⟨secondType, rfl⟩ := asBroadcast?_eq_some.mp isBroadcast
    obtain ⟨base, buildsBase, stride, buildsStride, builds⟩ := by
      simpa [Option.bind_eq_some_iff] using applies
    exact ⟨_, _, _, _, _, _, _, _, _, _, _, _, rfl, .inl ⟨rfl, rfl⟩, buildsBase, buildsStride, builds⟩
  next =>
    simp at applies
    obtain ⟨a, s, lanes, b, ⟨⟨firstType, rfl⟩, lanes', secondType, rfl⟩, base, buildsBase, stride,
      buildsStride, builds⟩ := applies
    exact ⟨_, _, _, _, _, _, _, _, _, _, _, _, rfl, .inr ⟨rfl, rfl⟩, buildsBase, buildsStride, builds⟩

theorem standsFor_rampMulBroadcast {expr result : Expr}
    (applies : rampMulBroadcast? expr = some result) : result.StandsFor expr := by
  obtain ⟨dtype, lhs, rhs, a, s, lanes, b, base, stride, firstType, secondType, lanes', rfl, operands,
    buildsBase, buildsStride, builds⟩ := rampMulBroadcast?_cases applies
  exact standsFor_ramp_broadcast rfl rfl operands
    (fun sizes => (load_binary? sizes buildsBase).trans (combined_le .mul _ _))
    (fun sizes => (load_binary? sizes buildsStride).trans (combined_le .mul _ _))
    (fun type isA isB => isA.arithmetic isB rfl buildsBase)
    (fun type isS isB => isS.arithmetic isB rfl buildsStride) builds

theorem standsFor_rampZeroStride {expr result : Expr}
    (applies : rampZeroStride? expr = some result) : result.StandsFor expr := by
  simp [rampZeroStride?] at applies
  obtain ⟨base, lanes, ⟨constType, dtype, rfl⟩, rfl⟩ := applies
  refine ⟨fun sizes => ?_, fun type typed => ?_⟩
  · rw [mkBroadcast, load, load]
    omega
  · obtain ⟨-, isBase, -, rfl, several⟩ := hasType_ramp.mp typed
    exact isBase.mkBroadcast rfl several

theorem standsFor_broadcastUnary {expr result : Expr}
    (applies : broadcastUnary? expr = some result) : result.StandsFor expr := by
  simp [broadcastUnary?] at applies
  split at applies
  next dtype innerType value lanes =>
    obtain ⟨scalar, builds, equal⟩ := Option.bind_eq_some_iff.mp applies
    cases equal
    refine ⟨fun sizes => ?_, fun type typed => ?_⟩
    · obtain ⟨-, rfl⟩ := not?_eq_some builds
      exact le_rfl
    · obtain ⟨rfl, operand, -⟩ := hasType_not.mp typed
      obtain ⟨-, isValue, rfl, several⟩ := hasType_broadcast.mp operand
      exact (isValue.not? builds).mkBroadcast rfl several
  next dtype innerType value lanes =>
    cases applies
    refine ⟨fun sizes => le_rfl, fun type typed => ?_⟩
    obtain ⟨rfl, operand, sound, sameLanes⟩ := hasType_cast.mp typed
    obtain ⟨-, isValue, isLanes, several⟩ := hasType_broadcast.mp operand.hasType
    have scalar : (Expr.cast dtype.element value).HasType dtype.element :=
      hasType_cast.mpr ⟨rfl, isValue.coherent, sound.element, by rw [isValue.isType]; rfl⟩
    rw [← isLanes, ← sameLanes] at several
    exact scalar.mkBroadcast rfl several
  next => cases applies

/-! ### The rules -/

/-- Every rule for vectors fits every expression. -/
theorem rules_fit (evidence : Evidence) (expr : Expr) :
    ∀ rule ∈ rules, rule.Fits evidence expr := by
  simp only [rules, List.forall_mem_cons, Rule.pure, Rule.Fits]
  exact ⟨fun _ => standsFor_broadcastOp, fun _ => standsFor_rampAddRamp,
    fun _ => standsFor_rampAddBroadcast, fun _ => standsFor_rampMulBroadcast,
    fun _ => standsFor_rampZeroStride, fun _ => standsFor_broadcastUnary, by simp⟩

end IndexAlgebra.Reduction.Lanes
