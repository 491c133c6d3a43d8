/-
This file says what the small readers and builders tell that rules are written with. Each reader of
`IndexAlgebra.Reduction.Rule` tells the shape of a node, and a builder tells what it has built and
what it has checked of the operands.
-/
import IndexAlgebra.Reduction.Rule

namespace IndexAlgebra.Expr

/-! ### What the readers tell -/

@[simp]
theorem asBinary?_eq_some {expr lhs rhs : Expr} {op : BinaryOp} :
    expr.asBinary? = some (op, lhs, rhs) ↔ ∃ dtype, expr = binary dtype op lhs rhs := by
  cases expr <;> simp [asBinary?]

@[simp]
theorem operands?_eq_some {expr lhs rhs : Expr} {op : BinaryOp} :
    expr.operands? op = some (lhs, rhs) ↔ ∃ dtype, expr = binary dtype op lhs rhs := by
  cases expr <;> simp [operands?]

@[simp]
theorem asInt?_eq_some {expr : Expr} {value : Int} :
    expr.asInt? = some value ↔ ∃ dtype, expr = intConst dtype value := by
  cases expr <;> simp [asInt?]

@[simp]
theorem asBool?_eq_some {expr : Expr} {value : Bool} :
    expr.asBool? = some value ↔ ∃ dtype, expr = boolConst dtype value := by
  cases expr <;> simp [asBool?]

@[simp]
theorem isInt_iff {expr : Expr} {value : Int} :
    expr.isInt value = true ↔ ∃ dtype, expr = intConst dtype value := by
  rw [isInt, beq_iff_eq, asInt?_eq_some]

@[simp]
theorem withConst?_eq_some {expr term : Expr} {op : BinaryOp} {value : Int} :
    expr.withConst? op = some (term, value) ↔
      ∃ dtype constType, expr = binary dtype op term (intConst constType value) := by
  unfold withConst?
  simp only [Option.bind_eq_bind, Option.bind_eq_some_iff, Option.pure_def, Option.some.injEq,
    Prod.mk.injEq, Prod.exists, operands?_eq_some, asInt?_eq_some]
  constructor
  · rintro ⟨lhs, rhs, ⟨dtype, rfl⟩, number, ⟨constType, rfl⟩, rfl, rfl⟩
    exact ⟨dtype, constType, rfl⟩
  · rintro ⟨dtype, constType, rfl⟩
    exact ⟨term, _, ⟨dtype, rfl⟩, value, ⟨constType, rfl⟩, rfl, rfl⟩

@[simp]
theorem asNot?_eq_some {expr value : Expr} :
    expr.asNot? = some value ↔ ∃ dtype, expr = not dtype value := by
  cases expr <;> simp [asNot?]

@[simp]
theorem asBroadcast?_eq_some {expr value : Expr} {lanes : Nat} :
    expr.asBroadcast? = some (value, lanes) ↔ ∃ dtype, expr = broadcast dtype value lanes := by
  cases expr <;> simp [asBroadcast?]

@[simp]
theorem asRamp?_eq_some {expr base stride : Expr} {lanes : Nat} :
    expr.asRamp? = some (base, stride, lanes) ↔ ∃ dtype, expr = ramp dtype base stride lanes := by
  cases expr <;> simp [asRamp?]

/-! ### What the builders tell -/

theorem isInteger_of_constant? {dtype : DataType} {built : Expr} {value : Int}
    (builds : constant? dtype value = some built) : dtype.isInteger = true := by
  unfold constant? at builds
  rw [Option.ite_none_right_eq_some] at builds
  exact builds.1.2.1

@[simp]
theorem binaryType_of_arithmetic {op : BinaryOp} {dtype : DataType}
    (arithmetic : op.opClass = .arithmetic) : binaryType op dtype = dtype := by
  unfold binaryType BinaryOp.isComparison
  rw [arithmetic]
  rfl

theorem lanes_binaryType (op : BinaryOp) (dtype : DataType) : (binaryType op dtype).lanes = dtype.lanes := by
  unfold binaryType
  split <;> rfl

theorem checkLogical_eq_ok {form : Form} {lhs rhs : Expr}
    (checked : form.checkLogical lhs rhs = .ok ()) : lhs.dtype.isBool = true := by
  unfold Form.checkLogical at checked
  split at checked
  · cases checked
  next isBool => simpa using isBool

theorem checkTypes_eq_ok {form : Form} {lhs rhs : Expr}
    (checked : form.checkTypes lhs rhs = .ok ()) :
    lhs.dtype = rhs.dtype := by
  unfold Form.checkTypes at checked
  split at checked
  next same => exact same
  next => split at checked <;> cases checked

/-- A binary node is built of the operands as they are given one type. -/
theorem binary?_unify {op : BinaryOp} {lhs rhs built : Expr}
    (builds : binary? op lhs rhs = some built) :
    (unify lhs rhs).1.dtype = (unify lhs rhs).2.dtype ∧
      built =
        binary (binaryType op (unify lhs rhs).1.dtype) op (unify lhs rhs).1 (unify lhs rhs).2 ∧
      (op.opClass = .logical → (unify lhs rhs).1.dtype.isBool = true) := by
  unfold binary? mkBinary at builds
  generalize unify lhs rhs = operands at builds ⊢
  obtain ⟨left, right⟩ := operands
  dsimp only at builds ⊢
  cases checked : (Form.ofOp op).checkTypes left right with
  | error fault =>
    rw [checked] at builds
    split at builds
    next =>
      cases logical : (Form.ofOp op).checkLogical left right <;>
        (rw [logical] at builds; cases builds)
    next => cases builds
  | ok checks =>
    rw [checked] at builds
    refine ⟨checkTypes_eq_ok checked, ?_⟩
    split at builds
    next =>
      cases logical : (Form.ofOp op).checkLogical left right with
      | error fault =>
        rw [logical] at builds
        cases builds
      | ok checks =>
        rw [logical] at builds
        cases builds
        exact ⟨rfl, fun _ => checkLogical_eq_ok logical⟩
    next notLogical =>
      cases builds
      refine ⟨rfl, fun isLogical => absurd ?_ notLogical⟩
      rw [BinaryOp.isLogical, isLogical]
      rfl

/-- A binary node of operands of one type is built as it is. -/
theorem binary?_eq_some {op : BinaryOp} {lhs rhs built : Expr} (same : lhs.dtype = rhs.dtype)
    (builds : binary? op lhs rhs = some built) :
    built = binary (binaryType op lhs.dtype) op lhs rhs ∧
      (op.opClass = .logical → lhs.dtype.isBool = true) := by
  have unified : unify lhs rhs = (lhs, rhs) := if_pos same
  have found := binary?_unify builds
  rw [unified] at found
  exact found.2

end IndexAlgebra.Expr
