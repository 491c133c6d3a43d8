/-
This file says what the reduction rules have in common. What a rule makes of an expression stands
for it: it is no heavier, and it has the same type if the expression is coherent. A rule that
compares two expressions compares none that are heavier than the node together.
-/
import IndexAlgebra.Proofs.Coherence

namespace IndexAlgebra

namespace Expr

/-- The expression may stand for another one: it is no heavier, and it has the type that the other
one has. -/
structure StandsFor (result expr : Expr) : Prop where
  lighter : ∀ sizes, result.load sizes ≤ expr.load sizes
  typed : ∀ dtype, expr.HasType dtype → result.HasType dtype

/-- The expression is lighter than another one, and the operator makes a node of the type of the
other one from it. -/
structure Beneath (op : BinaryOp) (part expr : Expr) : Prop where
  lighter : ∀ sizes, part.load sizes < expr.load sizes
  typed : ∀ dtype, expr.HasType dtype → ∃ operand, part.HasType operand ∧
    binaryType op operand = dtype

theorem StandsFor.refl (expr : Expr) : expr.StandsFor expr := ⟨fun _ => le_rfl, fun _ => id⟩

theorem StandsFor.trans {first second third : Expr} (inner : first.StandsFor second)
    (outer : second.StandsFor third) : first.StandsFor third :=
  ⟨fun sizes => (inner.lighter sizes).trans (outer.lighter sizes),
    fun dtype typed => inner.typed dtype (outer.typed dtype typed)⟩

theorem StandsFor.beneath {op : BinaryOp} {first second third : Expr}
    (inner : first.StandsFor second) (outer : Beneath op second third) : Beneath op first third :=
  ⟨fun sizes => (inner.lighter sizes).trans_lt (outer.lighter sizes), fun dtype typed =>
    let ⟨operand, isPart, isType⟩ := outer.typed dtype typed
    ⟨operand, inner.typed operand isPart, isType⟩⟩

end Expr

/-- What the rule makes of the expression stands for it, and what the rule compares is no heavier
than the expression. -/
def Rule.Fits (evidence : Evidence) (expr : Expr) : Rule → Prop
  | .plain _ apply => ∀ result, apply evidence expr = some result → result.StandsFor expr
  | .counted _ fits apply => ∀ result, fits expr = true → apply expr = some result →
    result.StandsFor expr
  | .comparing _ operands conclude =>
    (∀ lhs rhs difference, operands expr = some (lhs, rhs) →
      Expr.binary? .sub lhs rhs = some difference →
      ∀ sizes, difference.load sizes ≤ expr.load sizes) ∧
    ∀ relation result, conclude relation expr = some result → result.StandsFor expr

namespace Expr

variable {dtype : DataType} {op op' : BinaryOp} {lhs rhs : Expr}

/-! ### Operands -/

@[simp]
theorem isComparison_of_isLogical {op : BinaryOp} (isLogical : op.isLogical = true) :
    op.isComparison = false := by
  cases op <;> simp_all [BinaryOp.isLogical, BinaryOp.isComparison, BinaryOp.opClass]

theorem binaryType_congr (sameKind : op.isComparison = op'.isComparison) (dtype : DataType) :
    binaryType op dtype = binaryType op' dtype := by
  rw [binaryType, binaryType, sameKind]

theorem standsFor_lhs (notComparison : op.isComparison = false) :
    lhs.StandsFor (binary dtype op lhs rhs) := by
  refine ⟨fun sizes => load_lhs_le sizes dtype op lhs rhs, fun type typed => ?_⟩
  obtain ⟨operand, left, -, -, -, isType⟩ := hasType_binary.mp typed
  rw [binaryType, if_neg (by simp [notComparison])] at isType
  exact isType ▸ left

theorem standsFor_rhs (notComparison : op.isComparison = false) :
    rhs.StandsFor (binary dtype op lhs rhs) := by
  refine ⟨fun sizes => load_rhs_le sizes dtype op lhs rhs, fun type typed => ?_⟩
  obtain ⟨operand, -, right, -, -, isType⟩ := hasType_binary.mp typed
  rw [binaryType, if_neg (by simp [notComparison])] at isType
  exact isType ▸ right

theorem beneath_lhs (sameKind : op.isComparison = op'.isComparison)
    (plain : isInert op' lhs rhs = false) : Beneath op lhs (binary dtype op' lhs rhs) := by
  refine ⟨fun sizes => ?_, fun type typed => ?_⟩
  · rw [load, plain]
    exact lt_combined_left op' _ _
  · obtain ⟨operand, left, -, -, -, isType⟩ := hasType_binary.mp typed
    exact ⟨operand, left, (binaryType_congr sameKind _).trans isType.symm⟩

theorem beneath_rhs (sameKind : op.isComparison = op'.isComparison)
    (plain : isInert op' lhs rhs = false) : Beneath op rhs (binary dtype op' lhs rhs) := by
  refine ⟨fun sizes => ?_, fun type typed => ?_⟩
  · rw [load, plain]
    exact lt_combined_right op' _ _
  · obtain ⟨operand, -, right, -, -, isType⟩ := hasType_binary.mp typed
    exact ⟨operand, right, (binaryType_congr sameKind _).trans isType.symm⟩

/-! ### What is built of parts -/

theorem Beneath.binaryConst {part expr result : Expr} {value : Int} (beneath : Beneath op part expr)
    (builds : binaryConst? op part value = some result) : result.StandsFor expr := by
  refine ⟨fun sizes => ?_, fun type typed => ?_⟩
  · exact (load_binaryConst? sizes builds).trans (beneath.lighter sizes)
  · obtain ⟨operand, isPart, rfl⟩ := beneath.typed type typed
    exact isPart.binaryConst? builds

theorem Beneath.constBinary {part expr result : Expr} {value : Int} (beneath : Beneath op part expr)
    (builds : constBinary? op value part = some result) : result.StandsFor expr := by
  refine ⟨fun sizes => ?_, fun type typed => ?_⟩
  · exact (load_constBinary? sizes builds).trans (beneath.lighter sizes)
  · obtain ⟨operand, isPart, rfl⟩ := beneath.typed type typed
    exact isPart.constBinary? builds

theorem combined_congr (sameKind : op.isLogical = op'.isLogical) (first second : Nat) :
    combined op first second = combined op' first second := by
  rw [combined, combined, sameKind]

/-- A node of parts stands for the node of what the parts stand for. -/
theorem StandsFor.combine {lhs' rhs' result : Expr} (left : lhs'.StandsFor lhs)
    (right : rhs'.StandsFor rhs) (sameLoads : op.isLogical = op'.isLogical)
    (sameTypes : op.isComparison = op'.isComparison) (plain : isInert op' lhs rhs = false)
    (builds : binary? op lhs' rhs' = some result) : result.StandsFor (binary dtype op' lhs rhs) := by
  refine ⟨fun sizes => ?_, fun type typed => ?_⟩
  · rw [load, plain]
    refine (load_binary? sizes builds).trans ?_
    rw [combined_congr sameLoads]
    exact combined_mono (left.lighter sizes) (right.lighter sizes)
  · obtain ⟨operand, isLeft, isRight, -, -, isType⟩ := hasType_binary.mp typed
    rw [isType, ← binaryType_congr sameTypes]
    exact (left.typed _ isLeft).binary? (right.typed _ isRight) builds

/-- A node of parts in the other order stands for the node of what the parts stand for. -/
theorem StandsFor.combine_swap {lhs' rhs' result : Expr} (left : lhs'.StandsFor lhs)
    (right : rhs'.StandsFor rhs) (sameLoads : op.isLogical = op'.isLogical)
    (sameTypes : op.isComparison = op'.isComparison) (plain : isInert op' lhs rhs = false)
    (builds : binary? op rhs' lhs' = some result) : result.StandsFor (binary dtype op' lhs rhs) := by
  refine ⟨fun sizes => ?_, fun type typed => ?_⟩
  · rw [load, plain]
    refine (load_binary? sizes builds).trans ?_
    rw [combined_congr sameLoads, combined_comm]
    exact combined_mono (left.lighter sizes) (right.lighter sizes)
  · obtain ⟨operand, isLeft, isRight, -, -, isType⟩ := hasType_binary.mp typed
    rw [isType, ← binaryType_congr sameTypes]
    exact (right.typed _ isRight).binary? (left.typed _ isLeft) builds

/-- A constant of the type of an expression stands for it. -/
theorem standsFor_ofInt (expr : Expr) (value : Int) : (ofInt expr.dtype value).StandsFor expr := by
  refine ⟨fun sizes => ?_, fun type typed => ?_⟩
  · rw [load_ofInt]
    split_ifs with vector
    · exact load_pos_of_isVector sizes vector
    · exact Nat.zero_le _
  · rw [typed.isType]
    exact hasType_ofInt typed.sound value

theorem standsFor_constantLike? {expr result : Expr} {value : Int}
    (builds : constantLike? expr value = some result) : result.StandsFor expr := by
  unfold constantLike? constant? at builds
  obtain ⟨-, equal⟩ := Option.ite_none_right_eq_some.mp builds
  exact Option.some.inj equal ▸ standsFor_ofInt expr value

/-- A truth constant stands for a scalar condition. -/
theorem standsFor_ofBool {expr : Expr} (isType : ∀ type, expr.HasType type → type = .bool)
    (value : Bool) : (ofBool value).StandsFor expr := by
  refine ⟨fun sizes => Nat.zero_le _, fun type typed => ?_⟩
  rw [isType type typed]
  exact hasType_ofBool value

theorem load_binary_eq (sizes : Variable → Nat) (plain : isInert op lhs rhs = false) :
    (binary dtype op lhs rhs).load sizes = combined op (lhs.load sizes) (rhs.load sizes) := by
  rw [load, plain]
  rfl

/-- A light constant may be put beside what is lighter than an expression. -/
theorem standsFor_beside_constant {expr moved constant result : Expr}
    (notComparison : op.isComparison = false)
    (lighter : ∀ sizes, max (moved.load sizes) 1 + 1 ≤ expr.load sizes)
    (light : ∀ sizes, constant.load sizes ≤ 1)
    (typed : ∀ type, expr.HasType type → moved.HasType type ∧ constant.HasType type)
    (builds : binary? op moved constant = some result) : result.StandsFor expr := by
  refine ⟨fun sizes => ?_, fun type isType => ?_⟩
  · have built := (load_binary? sizes builds).trans (combined_le op _ _)
    have moved := lighter sizes
    have constant := light sizes
    omega
  · obtain ⟨isMoved, isConstant⟩ := typed type isType
    exact isMoved.arithmetic isConstant notComparison builds

/-- Zero beside what one of two operands may be replaced by stands for the node of the operands. -/
theorem standsFor_besideZero {term zero result : Expr} (notLogical : op.isLogical = false)
    (notProduct : op ≠ .mul) (part : term.StandsFor lhs ∨ term.StandsFor rhs)
    (isZero : constantLike? lhs 0 = some zero)
    (builds : binary? op zero term = some result ∨ binary? op term zero = some result) :
    result.StandsFor (binary dtype op lhs rhs) := by
  refine ⟨fun sizes => ?_, fun type typed => ?_⟩
  · have built : result.load sizes ≤ combined op (zero.load sizes) (term.load sizes) := by
      rcases builds with builds | builds
      · exact load_binary? sizes builds
      · rw [combined_comm]
        exact load_binary? sizes builds
    have weighs := (standsFor_constantLike? isZero).lighter sizes
    have light := load_constantLike?_le sizes isZero
    have lighter := part.imp (fun left => left.lighter sizes) fun right => right.lighter sizes
    rw [load_binary_eq sizes (isInert_of_ne notProduct _ _), combined_of_not_logical notLogical]
    rw [combined_of_not_logical notLogical] at built
    split_ifs at built ⊢ <;> omega
  · obtain ⟨operand, left, right, -, -, rfl⟩ := hasType_binary.mp typed
    have isTerm := part.elim (fun part => part.typed _ left) fun part => part.typed _ right
    rcases builds with builds | builds
    · exact (left.constantLike? isZero).binary? isTerm builds
    · exact isTerm.binary? (left.constantLike? isZero) builds

/-- The difference of two operands is no heavier than a node of them. -/
theorem load_difference_le {difference : Expr} (notLogical : op.isLogical = false)
    (notProduct : op ≠ .mul) (builds : binary? .sub lhs rhs = some difference)
    (sizes : Variable → Nat) : difference.load sizes ≤ (binary dtype op lhs rhs).load sizes := by
  have sameClass : op.isLogical = BinaryOp.sub.isLogical := notLogical
  rw [load_binary_eq sizes (isInert_of_ne notProduct _ _), combined_congr sameClass]
  exact load_binary? sizes builds

/-! ### Nodes whose operands are replaced -/

/-- The operand stands for the child of a node, and it is the child if that is an expression which
no rule changes. -/
def StandsIn (operand child : Expr) : Prop :=
  operand.StandsFor child ∧ (child.isFrozen = true → operand = child)

/-- A node stands for itself with other operands if these stand for its own. -/
theorem StandsFor.withChildren {expr : Expr} {operands : List Expr}
    (stand : List.Forall₂ StandsIn operands expr.children) :
    (expr.withChildren operands).StandsFor expr := by
  refine ⟨fun sizes => ?_, fun type typed => typed.withChildren (stand.imp fun _ _ fits => ?_)⟩
  · by_cases isLet : expr.isLet = true
    · cases expr with
      | letIn dtype name value body =>
        simp only [children, List.forall₂_cons_right_iff, List.forall₂_nil_right_iff] at stand
        obtain ⟨value', _, ⟨isValue, -⟩, ⟨body', _, ⟨isBody, -⟩, rfl, rfl⟩, rfl⟩ := stand
        refine load_letIn_mono dtype dtype (isValue.lighter sizes) ((isBody.lighter _).trans ?_)
        refine load_mono fun other _ => ?_
        have lighter := isValue.lighter sizes
        by_cases same : other = name
        · rw [same, Function.update_self, Function.update_self]
          omega
        · rw [Function.update_of_ne same, Function.update_of_ne same]
          exact le_max_left _ _
      | _ => cases isLet
    · exact load_withChildren_le (by simpa using isLet) (fun _ name _ => le_max_left _ _)
        (stand.imp fun _ _ fits => ⟨fits.1.lighter sizes, fits.2⟩)
  · exact fits.1.typed

end Expr

end IndexAlgebra
