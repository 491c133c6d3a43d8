/-
This file says when the types of an expression fit together: every node has the type that the
builders of `IndexAlgebra.Expr.Build` give it, vectors have at least two lanes, and the bases of
ramps and broadcasts are scalars. Unlike a well-typed expression, a coherent one may hold constants
that their type cannot hold, and types of any width, since the rules that fold constants keep the
type of a constant but not always its range.
-/
import IndexAlgebra.Proofs.Load

namespace IndexAlgebra

/-- The type has at least one lane, and truth values have one bit. -/
def DataType.Sound (dtype : DataType) : Prop :=
  1 ≤ dtype.lanes ∧ (dtype.isBool = true → dtype.bits = 1)

namespace DataType

instance (dtype : DataType) : Decidable dtype.Sound := by unfold Sound; infer_instance

theorem Valid.sound {dtype : DataType} (valid : dtype.Valid) : dtype.Sound :=
  ⟨valid.2.2.1, valid.2.2.2⟩

theorem Sound.withLanes {dtype : DataType} (sound : dtype.Sound) {lanes : Nat}
    (several : 1 ≤ lanes) : (dtype.withLanes lanes).Sound := ⟨several, sound.2⟩

theorem Sound.element {dtype : DataType} (sound : dtype.Sound) : dtype.element.Sound :=
  sound.withLanes le_rfl

/-- There is one scalar type of truth values. -/
theorem Sound.eq_bool {dtype : DataType} (sound : dtype.Sound) (isBool : dtype.isBool = true)
    (scalar : dtype.lanes = 1) : dtype = .bool := by
  have bits := sound.2 isBool
  obtain ⟨code, bits', lanes⟩ := dtype
  have code : code = .bool := beq_iff_eq.mp isBool
  simp only at scalar bits
  rw [scalar, bits, code]
  rfl

theorem Sound.lanes_eq_one {dtype : DataType} (sound : dtype.Sound)
    (scalar : dtype.isVector = false) : dtype.lanes = 1 := by
  have several := sound.1
  simp only [isVector, decide_eq_false_iff_not] at scalar
  omega

theorem element_of_lanes_eq_one {dtype : DataType} (scalar : dtype.lanes = 1) :
    dtype.element = dtype := by
  obtain ⟨code, bits, lanes⟩ := dtype
  cases scalar
  rfl

theorem isInteger_of_other {dtype : DataType} (notFloat : dtype.isFloat = false)
    (notBool : dtype.isBool = false) : dtype.isInteger = true := by
  obtain ⟨code, bits, lanes⟩ := dtype
  cases code <;> simp_all [isInteger, isInt, isUint, isBool, isFloat]

end DataType

namespace Expr

/-! ### Coherent expressions -/

/-- A choice between two values has the type of both, and its condition is a scalar truth value. -/
def ChoiceTyped (dtype : DataType) : CallOp → List Expr → Prop
  | .ifThenElse, [cond, onTrue, onFalse] =>
    cond.dtype = .bool ∧ onTrue.dtype = dtype ∧ onFalse.dtype = dtype
  | .ifThenElse, _ => False
  | _, _ => True

mutual

/-- The types of the expression fit together. -/
def Coherent : Expr → Prop
  | var dtype name => dtype = name.dtype ∧ dtype.Sound
  | intConst dtype _ => dtype.isInteger = true ∧ dtype.lanes = 1
  | floatConst dtype _ => dtype.isFloat = true ∧ dtype.lanes = 1
  | boolConst dtype _ => dtype = .bool
  | cast dtype value => value.Coherent ∧ dtype.Sound ∧ dtype.lanes = value.lanes
  | binary dtype op lhs rhs =>
    lhs.Coherent ∧ rhs.Coherent ∧ lhs.dtype = rhs.dtype ∧ dtype = binaryType op lhs.dtype ∧
      (op.isLogical = true → lhs.dtype.isBool = true)
  | not dtype value => value.Coherent ∧ dtype = value.dtype ∧ dtype.isBool = true
  | select dtype cond onTrue onFalse =>
    cond.Coherent ∧ onTrue.Coherent ∧ onFalse.Coherent ∧ cond.dtype.isBool = true ∧
      onTrue.dtype = dtype ∧ onFalse.dtype = dtype ∧
      (cond.lanes = dtype.lanes ∨ cond.lanes = 1)
  | ramp dtype base stride lanes =>
    base.Coherent ∧ stride.Coherent ∧ base.dtype = stride.dtype ∧ base.lanes = 1 ∧ 2 ≤ lanes ∧
      dtype = base.dtype.withLanes lanes
  | broadcast dtype value lanes =>
    value.Coherent ∧ value.lanes = 1 ∧ 2 ≤ lanes ∧ dtype = value.dtype.withLanes lanes
  | shuffle dtype vectors _ => AllCoherent vectors ∧ dtype.Sound
  | letIn dtype name value body =>
    value.Coherent ∧ body.Coherent ∧ value.dtype = name.dtype ∧ dtype = body.dtype
  | call dtype op args => AllCoherent args ∧ dtype.Sound ∧ ChoiceTyped dtype op args

/-- Every expression of the list is coherent. -/
def AllCoherent : List Expr → Prop
  | [] => True
  | expr :: rest => expr.Coherent ∧ AllCoherent rest

end

section

attribute [local simp] Coherent AllCoherent

theorem allCoherent_iff {exprs : List Expr} :
    AllCoherent exprs ↔ ∀ expr ∈ exprs, expr.Coherent := by
  induction exprs with
  | nil => simp
  | cons expr rest inductionHypothesis => simp [inductionHypothesis]

end

theorem Coherent.child {expr child : Expr} (coherent : expr.Coherent)
    (member : child ∈ expr.children) : child.Coherent := by
  cases expr with
  | shuffle dtype vectors indices =>
    rw [Coherent] at coherent
    exact allCoherent_iff.mp coherent.1 child member
  | call dtype op args =>
    rw [Coherent] at coherent
    exact allCoherent_iff.mp coherent.1 child member
  | _ =>
    rw [Coherent] at coherent
    simp only [children, List.mem_cons, List.not_mem_nil, or_false] at member
    all_goals grind

theorem Coherent.namesTyped {expr : Expr} (coherent : expr.Coherent) : expr.NamesTyped := by
  intro dtype name member
  have node : (var dtype name).Coherent :=
    of_mem_postOrder (fun _ coherent _ isChild => coherent.child isChild) expr coherent member
  rw [Coherent] at node
  exact node.1

theorem choiceTyped_of_callTyped {dtype : DataType} {op : CallOp} {args : List Expr}
    (typed : CallTyped dtype op args) : ChoiceTyped dtype op args := by
  cases op with
  | ifThenElse => match args, typed with | [_, _, _], typed => exact typed
  | _ => trivial

mutual

/-- A well-typed expression is coherent. -/
theorem WellTyped.coherent : {expr : Expr} → expr.WellTyped → expr.Coherent
  | var .., typed => by
    rw [WellTyped] at typed
    rw [Coherent]
    exact ⟨typed.1, typed.2.sound⟩
  | intConst .., typed => by
    rw [WellTyped] at typed
    rw [Coherent]
    exact ⟨typed.2.1, typed.2.2.1⟩
  | floatConst .., typed => by
    rw [WellTyped] at typed
    rw [Coherent]
    exact typed.2
  | boolConst .., typed => by
    rw [WellTyped] at typed
    rwa [Coherent]
  | cast .., typed => by
    rw [WellTyped] at typed
    rw [Coherent]
    exact ⟨typed.1.coherent, typed.2.1.sound, typed.2.2⟩
  | binary .., typed => by
    rw [WellTyped] at typed
    rw [Coherent]
    exact ⟨typed.1.coherent, typed.2.1.coherent, typed.2.2⟩
  | not .., typed | broadcast .., typed => by
    rw [WellTyped] at typed
    rw [Coherent]
    exact ⟨typed.1.coherent, typed.2⟩
  | ramp .., typed | letIn .., typed => by
    rw [WellTyped] at typed
    rw [Coherent]
    exact ⟨typed.1.coherent, typed.2.1.coherent, typed.2.2⟩
  | select .., typed => by
    rw [WellTyped] at typed
    rw [Coherent]
    obtain ⟨cond, onTrue, onFalse, isBool, same, rfl, lanes⟩ := typed
    exact ⟨cond.coherent, onTrue.coherent, onFalse.coherent, isBool, rfl, same.symm, lanes⟩
  | shuffle .., typed => by
    rw [WellTyped] at typed
    rw [Coherent]
    exact ⟨allCoherent_of_wellTyped typed.1, typed.2.2.1.sound⟩
  | call .., typed => by
    rw [WellTyped] at typed
    rw [Coherent]
    exact ⟨allCoherent_of_wellTyped typed.1, typed.2.1.sound, choiceTyped_of_callTyped typed.2.2⟩

theorem allCoherent_of_wellTyped : {exprs : List Expr} → AllWellTyped exprs → AllCoherent exprs
  | [], _ => trivial
  | _ :: _, typed => ⟨typed.1.coherent, allCoherent_of_wellTyped typed.2⟩

end

/-- The expression is coherent and has the type. -/
structure HasType (expr : Expr) (dtype : DataType) : Prop where
  coherent : expr.Coherent
  isType : expr.dtype = dtype

theorem Coherent.hasType {expr : Expr} (coherent : expr.Coherent) : expr.HasType expr.dtype :=
  ⟨coherent, rfl⟩

variable {dtype : DataType}

theorem hasType_binary {type : DataType} {op : BinaryOp} {lhs rhs : Expr} :
    (binary dtype op lhs rhs).HasType type ↔ ∃ operand, lhs.HasType operand ∧
      rhs.HasType operand ∧ (op.isLogical = true → operand.isBool = true) ∧ dtype = type ∧
      type = binaryType op operand := by
  constructor
  · rintro ⟨coherent, rfl⟩
    rw [Coherent] at coherent
    obtain ⟨left, right, same, isType, logical⟩ := coherent
    exact ⟨lhs.dtype, left.hasType, ⟨right, same.symm⟩, logical, rfl, isType⟩
  · rintro ⟨operand, ⟨left, rfl⟩, right, logical, rfl, isType⟩
    refine ⟨?_, rfl⟩
    rw [Coherent]
    exact ⟨left, right.coherent, right.isType.symm, isType, logical⟩

theorem hasType_not {type : DataType} {value : Expr} :
    (not dtype value).HasType type ↔ dtype = type ∧ value.HasType type ∧ type.isBool = true := by
  constructor
  · rintro ⟨coherent, rfl⟩
    rw [Coherent] at coherent
    exact ⟨rfl, ⟨coherent.1, coherent.2.1.symm⟩, coherent.2.2⟩
  · rintro ⟨rfl, operand, isBool⟩
    refine ⟨?_, rfl⟩
    rw [Coherent]
    exact ⟨operand.coherent, operand.isType.symm, isBool⟩

theorem hasType_cast {type : DataType} {value : Expr} :
    (cast dtype value).HasType type ↔ dtype = type ∧ value.Coherent ∧ type.Sound ∧
      type.lanes = value.dtype.lanes := by
  constructor
  · rintro ⟨coherent, rfl⟩
    rw [Coherent] at coherent
    exact ⟨rfl, coherent⟩
  · rintro ⟨rfl, operand, sound, lanes⟩
    refine ⟨?_, rfl⟩
    rw [Coherent]
    exact ⟨operand, sound, lanes⟩

/-- The type of the lanes of a broadcast is that of its value. -/
theorem hasType_broadcast {type : DataType} {value : Expr} {lanes : Nat} :
    (broadcast dtype value lanes).HasType type ↔ dtype = type ∧ value.HasType type.element ∧
      type.lanes = lanes ∧ 2 ≤ lanes := by
  constructor
  · rintro ⟨coherent, rfl⟩
    rw [Coherent] at coherent
    obtain ⟨operand, scalar, several, rfl⟩ := coherent
    exact ⟨rfl, ⟨operand, (DataType.element_of_lanes_eq_one scalar).symm⟩, rfl, several⟩
  · rintro ⟨rfl, operand, rfl, several⟩
    refine ⟨?_, rfl⟩
    rw [Coherent, Expr.lanes, operand.isType]
    exact ⟨operand.coherent, rfl, several, rfl⟩

/-- The type of the lanes of a ramp is that of its base and of its stride. -/
theorem hasType_ramp {type : DataType} {base stride : Expr} {lanes : Nat} :
    (ramp dtype base stride lanes).HasType type ↔ dtype = type ∧ base.HasType type.element ∧
      stride.HasType type.element ∧ type.lanes = lanes ∧ 2 ≤ lanes := by
  constructor
  · rintro ⟨coherent, rfl⟩
    rw [Coherent] at coherent
    obtain ⟨first, step, same, scalar, several, rfl⟩ := coherent
    have isElement := (DataType.element_of_lanes_eq_one scalar).symm
    exact ⟨rfl, ⟨first, isElement⟩, ⟨step, same.symm.trans isElement⟩, rfl, several⟩
  · rintro ⟨rfl, first, step, rfl, several⟩
    refine ⟨?_, rfl⟩
    rw [Coherent, Expr.lanes, first.isType]
    exact ⟨first.coherent, step.coherent, step.isType.symm, rfl, several, rfl⟩

theorem hasType_select {type : DataType} {cond onTrue onFalse : Expr}
    (typed : (select dtype cond onTrue onFalse).HasType type) :
    cond.Coherent ∧ onTrue.HasType type ∧ onFalse.HasType type := by
  obtain ⟨coherent, rfl⟩ := typed
  rw [Coherent] at coherent
  obtain ⟨isCond, taken, other, -, isTaken, isOther, -⟩ := coherent
  exact ⟨isCond, ⟨taken, isTaken⟩, other, isOther⟩

/-- The type of a coherent expression is sound. -/
theorem Coherent.sound : {expr : Expr} → expr.Coherent → expr.dtype.Sound
  | var .., coherent => by
    rw [Coherent] at coherent
    exact coherent.2
  | intConst dtype _, coherent => by
    rw [Coherent] at coherent
    refine ⟨coherent.2.ge, fun isBool => ?_⟩
    rw [show dtype.isInteger = false from DataType.isInteger_of_isBool isBool] at coherent
    cases coherent.1
  | floatConst dtype _, coherent => by
    rw [Coherent] at coherent
    refine ⟨coherent.2.ge, fun isBool => ?_⟩
    rw [show dtype.isFloat = false from DataType.isFloat_of_isBool isBool] at coherent
    cases coherent.1
  | boolConst .., coherent => by
    rw [Coherent] at coherent
    simp only [Expr.dtype, coherent]
    decide
  | cast .., coherent => by
    rw [Coherent] at coherent
    exact coherent.2.1
  | binary _ op lhs _, coherent => by
    rw [Coherent] at coherent
    obtain ⟨left, -, -, rfl, -⟩ := coherent
    simp only [Expr.dtype, binaryType]
    split
    · exact ⟨left.sound.1, fun _ => rfl⟩
    · exact left.sound
  | not _ value, coherent => by
    rw [Coherent] at coherent
    obtain ⟨operand, rfl, -⟩ := coherent
    exact operand.sound
  | select _ cond onTrue _, coherent => by
    rw [Coherent] at coherent
    obtain ⟨-, taken, -, -, rfl, -⟩ := coherent
    exact taken.sound
  | ramp _ base _ _, coherent => by
    rw [Coherent] at coherent
    obtain ⟨first, -, -, -, several, rfl⟩ := coherent
    exact first.sound.withLanes (by omega)
  | broadcast _ value _, coherent => by
    rw [Coherent] at coherent
    obtain ⟨operand, -, several, rfl⟩ := coherent
    exact operand.sound.withLanes (by omega)
  | shuffle .., coherent => by
    rw [Coherent] at coherent
    exact coherent.2
  | letIn _ _ _ body, coherent => by
    rw [Coherent] at coherent
    obtain ⟨-, inner, -, rfl⟩ := coherent
    exact inner.sound
  | call .., coherent => by
    rw [Coherent] at coherent
    exact coherent.2.1

theorem HasType.sound {expr : Expr} (typed : expr.HasType dtype) : dtype.Sound :=
  typed.isType ▸ typed.coherent.sound

/-! ### Types of what the builders build -/

theorem hasType_scalarOfInt (sound : dtype.Sound) (scalar : dtype.lanes = 1) (value : Int) :
    (scalarOfInt dtype value).HasType dtype := by
  unfold scalarOfInt
  split_ifs with isFloat isBool
  · exact ⟨by rw [Coherent]; exact ⟨isFloat, scalar⟩, rfl⟩
  · exact ⟨by rw [Coherent]; exact sound.eq_bool isBool scalar, rfl⟩
  · refine ⟨?_, rfl⟩
    rw [Coherent]
    exact ⟨DataType.isInteger_of_other (by simpa using isFloat) (by simpa using isBool), scalar⟩

/-- A vector with the same scalar in each of its lanes. -/
theorem HasType.broadcast_element {value : Expr} (typed : value.HasType dtype.element)
    (vector : dtype.isVector = true) : (broadcast dtype value dtype.lanes).HasType dtype := by
  refine ⟨?_, rfl⟩
  rw [Coherent, lanes, typed.isType]
  exact ⟨typed.coherent, rfl, of_decide_eq_true vector, rfl⟩

theorem hasType_ofInt (sound : dtype.Sound) (value : Int) : (ofInt dtype value).HasType dtype := by
  unfold ofInt
  split_ifs with vector
  · exact (hasType_scalarOfInt sound.element rfl value).broadcast_element vector
  · exact hasType_scalarOfInt sound (sound.lanes_eq_one (by simpa using vector)) value

theorem hasType_ofFloat (sound : dtype.Sound) (isFloat : dtype.isFloat = true) (value : Binary64) :
    (ofFloat dtype value).HasType dtype := by
  unfold ofFloat
  split_ifs with vector
  · refine HasType.broadcast_element ⟨?_, rfl⟩ vector
    rw [Coherent]
    exact ⟨isFloat, rfl⟩
  · refine ⟨?_, rfl⟩
    rw [Coherent]
    exact ⟨isFloat, sound.lanes_eq_one (by simpa using vector)⟩

theorem hasType_ofBool (value : Bool) : (ofBool value).HasType .bool :=
  ⟨by rw [ofBool, Coherent], rfl⟩

theorem hasType_constant? (sound : dtype.Sound) {value : Int} {built : Expr}
    (builds : constant? dtype value = some built) : built.HasType dtype := by
  unfold constant? at builds
  obtain ⟨-, equal⟩ := Option.ite_none_right_eq_some.mp builds
  exact Option.some.inj equal ▸ hasType_ofInt sound value

theorem HasType.constantLike? {like built : Expr} (typed : like.HasType dtype) {value : Int}
    (builds : constantLike? like value = some built) : built.HasType dtype := by
  have isConstant : constant? dtype value = some built := typed.isType ▸ builds
  exact hasType_constant? typed.sound isConstant

/-- A node of operands of one type has the type that its operator gives it. -/
theorem HasType.binary? {op : BinaryOp} {lhs rhs built : Expr} (left : lhs.HasType dtype)
    (right : rhs.HasType dtype) (builds : binary? op lhs rhs = some built) :
    built.HasType (binaryType op dtype) := by
  have same := left.isType.trans right.isType.symm
  obtain ⟨rfl, logical⟩ := binary?_eq_some same builds
  rw [left.isType] at logical ⊢
  exact hasType_binary.mpr
    ⟨dtype, left, right, fun isLogical => logical (beq_iff_eq.mp isLogical), rfl, rfl⟩

/-- An operator that does not compare gives a node the type of its operands. -/
theorem HasType.arithmetic {op : BinaryOp} {lhs rhs built : Expr} (left : lhs.HasType dtype)
    (right : rhs.HasType dtype) (notComparison : op.isComparison = false)
    (builds : Expr.binary? op lhs rhs = some built) : built.HasType dtype := by
  have typed := left.binary? right builds
  rwa [binaryType, if_neg (by simp [notComparison])] at typed

theorem HasType.binaryConst? {op : BinaryOp} {lhs built : Expr} {value : Int}
    (left : lhs.HasType dtype) (builds : binaryConst? op lhs value = some built) :
    built.HasType (binaryType op dtype) := by
  obtain ⟨constant, isConstant, builds⟩ := Option.bind_eq_some_iff.mp builds
  exact left.binary? (left.constantLike? isConstant) builds

theorem HasType.constBinary? {op : BinaryOp} {rhs built : Expr} {value : Int}
    (right : rhs.HasType dtype) (builds : constBinary? op value rhs = some built) :
    built.HasType (binaryType op dtype) := by
  obtain ⟨constant, isConstant, builds⟩ := Option.bind_eq_some_iff.mp builds
  exact (right.constantLike? isConstant).binary? right builds

theorem HasType.not? {value built : Expr} (typed : value.HasType dtype)
    (builds : not? value = some built) : built.HasType dtype := by
  obtain ⟨isBool, rfl⟩ := not?_eq_some builds
  obtain ⟨coherent, rfl⟩ := typed
  exact hasType_not.mpr ⟨rfl, coherent.hasType, isBool⟩

theorem unify_of_eq {lhs rhs : Expr} (same : lhs.dtype = rhs.dtype) :
    unify lhs rhs = (lhs, rhs) := if_pos same

theorem HasType.select? {cond onTrue onFalse built : Expr} (isCond : cond.Coherent)
    (taken : onTrue.HasType dtype) (other : onFalse.HasType dtype)
    (builds : select? cond onTrue onFalse = some built) : built.HasType dtype := by
  have found := select?_eq_some builds
  rw [unify_of_eq (taken.isType.trans other.isType.symm)] at found
  obtain ⟨rfl, isBool, -, fit⟩ := found
  refine ⟨?_, taken.isType⟩
  rw [Coherent]
  exact ⟨isCond, taken.coherent, other.coherent, isBool, rfl, other.isType.trans taken.isType.symm,
    fit⟩

theorem HasType.ramp? {base stride built : Expr} {lanes : Nat} (first : base.HasType dtype)
    (step : stride.HasType dtype) (several : 2 ≤ lanes)
    (builds : ramp? base stride lanes = some built) : built.HasType (dtype.withLanes lanes) := by
  have found := ramp?_eq_some builds
  have same := first.isType.trans step.isType.symm
  rw [unify_of_eq same] at found
  obtain ⟨rfl, -, scalar⟩ := found
  refine ⟨?_, congrArg (DataType.withLanes · lanes) first.isType⟩
  rw [Coherent]
  exact ⟨first.coherent, step.coherent, same, first.coherent.sound.lanes_eq_one scalar, several, rfl⟩

theorem HasType.mkBroadcast {value : Expr} {lanes : Nat} (typed : value.HasType dtype)
    (scalar : dtype.lanes = 1) (several : 2 ≤ lanes) :
    (mkBroadcast value lanes).HasType (dtype.withLanes lanes) := by
  refine hasType_broadcast.mpr ⟨congrArg (DataType.withLanes · lanes) typed.isType, ?_, rfl, several⟩
  rwa [DataType.element_withLanes, DataType.element_of_lanes_eq_one scalar]

/-! ### Other operands -/

/-- The operand has every type that the child of a node has. -/
def KeepsType (operand child : Expr) : Prop :=
  ∀ type, child.HasType type → operand.HasType type

theorem allCoherent_of_keepsType {operands exprs : List Expr}
    (keeps : List.Forall₂ KeepsType operands exprs) (coherent : AllCoherent exprs) :
    AllCoherent operands := by
  induction keeps with
  | nil => trivial
  | cons head _ inductionHypothesis =>
    exact ⟨(head _ coherent.1.hasType).coherent, inductionHypothesis coherent.2⟩

theorem choiceTyped_of_keepsType {op : CallOp} {operands exprs : List Expr}
    (keeps : List.Forall₂ KeepsType operands exprs) (coherent : AllCoherent exprs)
    (choice : ChoiceTyped dtype op exprs) : ChoiceTyped dtype op operands := by
  cases op with
  | ifThenElse =>
    match exprs, choice with
    | [cond, onTrue, onFalse], ⟨isCond, isTaken, isOther⟩ =>
      simp only [List.forall₂_cons_right_iff, List.forall₂_nil_right_iff] at keeps
      obtain ⟨cond', _, keepsCond, ⟨taken', _, keepsTaken, ⟨other', _, keepsOther, rfl, rfl⟩, rfl⟩, rfl⟩ :=
        keeps
      obtain ⟨coherentCond, coherentTaken, coherentOther, -⟩ := coherent
      exact ⟨(keepsCond _ ⟨coherentCond, isCond⟩).isType, (keepsTaken _ ⟨coherentTaken, isTaken⟩).isType,
        (keepsOther _ ⟨coherentOther, isOther⟩).isType⟩
  | _ => trivial

/-- A node keeps its type if its operands keep theirs. -/
theorem HasType.withChildren {expr : Expr} {operands : List Expr}
    (keeps : List.Forall₂ KeepsType operands expr.children) (typed : expr.HasType dtype) :
    (expr.withChildren operands).HasType dtype := by
  obtain ⟨coherent, rfl⟩ := typed
  cases expr with
  | var | intConst | floatConst | boolConst => exact ⟨coherent, rfl⟩
  | cast type value =>
    simp only [children, List.forall₂_cons_right_iff, List.forall₂_nil_right_iff] at keeps
    obtain ⟨value', _, keepsValue, rfl, rfl⟩ := keeps
    obtain ⟨-, operand, sound, lanes⟩ := hasType_cast.mp coherent.hasType
    have operand' := keepsValue _ operand.hasType
    exact hasType_cast.mpr ⟨rfl, operand'.coherent, sound, lanes.trans (by rw [operand'.isType])⟩
  | not type value =>
    simp only [children, List.forall₂_cons_right_iff, List.forall₂_nil_right_iff] at keeps
    obtain ⟨value', _, keepsValue, rfl, rfl⟩ := keeps
    obtain ⟨-, operand, isBool⟩ := hasType_not.mp coherent.hasType
    exact hasType_not.mpr ⟨rfl, keepsValue _ operand, isBool⟩
  | broadcast type value lanes =>
    simp only [children, List.forall₂_cons_right_iff, List.forall₂_nil_right_iff] at keeps
    obtain ⟨value', _, keepsValue, rfl, rfl⟩ := keeps
    obtain ⟨-, operand, isLanes, several⟩ := hasType_broadcast.mp coherent.hasType
    exact hasType_broadcast.mpr ⟨rfl, keepsValue _ operand, isLanes, several⟩
  | binary type op lhs rhs =>
    simp only [children, List.forall₂_cons_right_iff, List.forall₂_nil_right_iff] at keeps
    obtain ⟨lhs', _, keepsLeft, ⟨rhs', _, keepsRight, rfl, rfl⟩, rfl⟩ := keeps
    obtain ⟨operand, left, right, logical, -, isType⟩ := hasType_binary.mp coherent.hasType
    exact hasType_binary.mpr
      ⟨operand, keepsLeft _ left, keepsRight _ right, logical, rfl, isType⟩
  | ramp type base stride lanes =>
    simp only [children, List.forall₂_cons_right_iff, List.forall₂_nil_right_iff] at keeps
    obtain ⟨base', _, keepsBase, ⟨stride', _, keepsStride, rfl, rfl⟩, rfl⟩ := keeps
    obtain ⟨-, first, step, isLanes, several⟩ := hasType_ramp.mp coherent.hasType
    exact hasType_ramp.mpr ⟨rfl, keepsBase _ first, keepsStride _ step, isLanes, several⟩
  | select type cond onTrue onFalse =>
    simp only [children, List.forall₂_cons_right_iff, List.forall₂_nil_right_iff] at keeps
    obtain ⟨cond', _, keepsCond, ⟨taken', _, keepsTaken, ⟨other', _, keepsOther, rfl, rfl⟩, rfl⟩, rfl⟩ :=
      keeps
    rw [Coherent] at coherent
    obtain ⟨isCond, taken, other, isBool, isTaken, isOther, lanes⟩ := coherent
    have cond'' := keepsCond _ isCond.hasType
    have taken'' := keepsTaken _ ⟨taken, isTaken⟩
    have other'' := keepsOther _ ⟨other, isOther⟩
    refine ⟨?_, rfl⟩
    rw [Expr.withChildren, Coherent, Expr.lanes, cond''.isType]
    exact ⟨cond''.coherent, taken''.coherent, other''.coherent, isBool, taken''.isType,
      other''.isType, lanes⟩
  | shuffle type vectors indices =>
    rw [Coherent] at coherent
    refine ⟨?_, rfl⟩
    rw [Expr.withChildren, Coherent]
    exact ⟨allCoherent_of_keepsType keeps coherent.1, coherent.2⟩
  | letIn type name value body =>
    simp only [children, List.forall₂_cons_right_iff, List.forall₂_nil_right_iff] at keeps
    obtain ⟨value', _, keepsValue, ⟨body', _, keepsBody, rfl, rfl⟩, rfl⟩ := keeps
    rw [Coherent] at coherent
    obtain ⟨isValue, isBody, bound, sameType⟩ := coherent
    have value'' := keepsValue _ ⟨isValue, bound⟩
    have body'' := keepsBody _ ⟨isBody, sameType.symm⟩
    refine ⟨?_, rfl⟩
    rw [Expr.withChildren, Coherent]
    exact ⟨value''.coherent, body''.coherent, value''.isType, body''.isType.symm⟩
  | call type op args =>
    rw [Coherent] at coherent
    obtain ⟨operands', sound, choice⟩ := coherent
    refine ⟨?_, rfl⟩
    rw [Expr.withChildren, Coherent]
    exact ⟨allCoherent_of_keepsType keeps operands', sound, choiceTyped_of_keepsType keeps operands' choice⟩

/-! ### Substitution -/

theorem hasType_expr {name : Variable} (sound : name.dtype.Sound) : name.expr.HasType name.dtype := by
  refine ⟨?_, rfl⟩
  rw [Variable.expr, Coherent]
  exact ⟨rfl, sound⟩

/-- An expression keeps its type where variables are replaced by expressions of their type. -/
theorem HasType.substituteWithin {replacement : Replacement}
    (values : ∀ name value, replacement name = some value → name.dtype.Sound →
      value.HasType name.dtype) (fuel : Nat) (hidden : List Variable) {expr : Expr}
    (typed : expr.HasType dtype) :
    (substituteWithin fuel replacement hidden expr).HasType dtype := by
  induction fuel generalizing replacement hidden expr dtype with
  | zero => exact typed
  | succ fuel inductionHypothesis =>
    cases expr with
    | var type name =>
      rw [Expr.substituteWithin]
      split
      · exact typed
      · cases found : replacement name with
        | none => exact typed
        | some value =>
          obtain ⟨coherent, rfl⟩ := typed
          rw [Coherent] at coherent
          obtain ⟨rfl, sound⟩ := coherent
          exact values name value found sound
    | letIn type name value body =>
      obtain ⟨coherent, rfl⟩ := typed
      rw [Coherent] at coherent
      obtain ⟨isValue, isBody, bound, rfl⟩ := coherent
      have value' := inductionHypothesis values hidden (Coherent.hasType isValue)
      have binding : ∀ {fresh : Variable} {body' : Expr}, fresh.dtype = name.dtype →
          body'.HasType body.dtype →
          (letIn body.dtype fresh (Expr.substituteWithin fuel replacement hidden value) body').HasType
            body.dtype := by
        intro fresh body' sameType inner
        refine ⟨?_, rfl⟩
        rw [Coherent]
        exact ⟨value'.coherent, inner.coherent, value'.isType.trans (bound.trans sameType.symm),
          inner.isType.symm⟩
      rcases substituteWithin_letIn fuel replacement hidden body.dtype name value body with
        ⟨-, walked⟩ | ⟨fresh, -, sameType, walked⟩
      · rw [walked]
        exact binding rfl (inductionHypothesis values _ isBody.hasType)
      · rw [walked]
        refine binding sameType (inductionHypothesis values _ (inductionHypothesis ?_ _ isBody.hasType))
        intro other renamed replaced sound
        obtain ⟨rfl, equal⟩ := Option.ite_none_right_eq_some.mp replaced
        rw [← Option.some.inj equal, ← sameType]
        exact hasType_expr (sameType ▸ sound)
    | _ =>
      rw [substituteWithin_of_not_isLet fuel replacement hidden rfl rfl]
      refine typed.withChildren ?_
      rw [List.forall₂_map_left_iff, List.forall₂_same]
      exact fun child _ type isChild => inductionHypothesis values hidden isChild

theorem HasType.substitute {replacement : Replacement} {expr : Expr}
    (values : ∀ name value, replacement name = some value → name.dtype.Sound →
      value.HasType name.dtype) (typed : expr.HasType dtype) :
    (expr.substitute replacement).HasType dtype := typed.substituteWithin values _ _

end Expr

end IndexAlgebra
