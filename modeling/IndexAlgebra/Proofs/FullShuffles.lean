/-
This file proves when the shuffles of an expression are full, with as many indices as their types have
lanes. What the builders of `IndexAlgebra.Reduction.Rule` build of full parts is full, and so is what its
readers find in a full node. Renaming bound variables and replacing variables by full values do not
touch the indices either.
-/
import IndexAlgebra.Proofs.LaneCounts

namespace IndexAlgebra

namespace Expr

variable {dtype : DataType} {op : BinaryOp} {lanes : Nat} {expr value lhs rhs built : Expr}

/-! ### Nodes -/

@[simp, grind =]
theorem full_cast : (cast dtype value).Full ↔ value.Full := by
  rw [full_iff]
  simp [isFull, children]

@[simp, grind =]
theorem full_binary : (binary dtype op lhs rhs).Full ↔ lhs.Full ∧ rhs.Full := by
  rw [full_iff]
  simp [isFull, children]

@[simp, grind =]
theorem full_not : (not dtype value).Full ↔ value.Full := by
  rw [full_iff]
  simp [isFull, children]

@[simp, grind =]
theorem full_select {cond onTrue onFalse : Expr} :
    (select dtype cond onTrue onFalse).Full ↔ cond.Full ∧ onTrue.Full ∧ onFalse.Full := by
  rw [full_iff]
  simp [isFull, children]

@[simp, grind =]
theorem full_ramp {base stride : Expr} :
    (ramp dtype base stride lanes).Full ↔ base.Full ∧ stride.Full := by
  rw [full_iff]
  simp [isFull, children]

@[simp, grind =]
theorem full_broadcast : (broadcast dtype value lanes).Full ↔ value.Full := by
  rw [full_iff]
  simp [isFull, children]

@[simp, grind =]
theorem full_letIn {name : Variable} {body : Expr} :
    (letIn dtype name value body).Full ↔ value.Full ∧ body.Full := by
  rw [full_iff]
  simp [isFull, children]

@[simp, grind =]
theorem full_call {op : CallOp} {args : List Expr} :
    (call dtype op args).Full ↔ ∀ arg ∈ args, arg.Full := by
  rw [full_iff]
  simp [isFull, children]

theorem full_of_children_eq_nil (isFull : expr.isFull = true) (leaf : expr.children = []) :
    expr.Full := (full_iff expr).mpr ⟨isFull, by simp [leaf]⟩

@[simp, grind .]
theorem full_var (name : Variable) : (var dtype name).Full := full_of_children_eq_nil rfl rfl

@[simp, grind .]
theorem full_intConst (number : Int) : (intConst dtype number).Full := full_of_children_eq_nil rfl rfl

@[simp, grind .]
theorem full_floatConst (number : Binary64) : (floatConst dtype number).Full :=
  full_of_children_eq_nil rfl rfl

@[simp, grind .]
theorem full_boolConst (truth : Bool) : (boolConst dtype truth).Full := full_of_children_eq_nil rfl rfl

theorem isFull_withChildren (expr : Expr) (operands : List Expr) :
    (expr.withChildren operands).isFull = expr.isFull := by
  unfold withChildren
  split <;> rfl

/-- A node stays full with full operands in the place of its own. -/
theorem Full.withChildren {operands : List Expr} (full : expr.Full)
    (length : operands.length = expr.children.length) (operandsFull : ∀ operand ∈ operands, operand.Full) :
    (expr.withChildren operands).Full := by
  rw [full_iff, isFull_withChildren, children_withChildren length]
  exact ⟨((full_iff expr).mp full).1, operandsFull⟩

/-! ### What is built of full parts -/

@[simp, grind .]
theorem full_ofInt (number : Int) : (ofInt dtype number).Full := by
  unfold ofInt scalarOfInt
  split_ifs <;> simp

@[simp, grind .]
theorem full_ofFloat (number : Binary64) : (ofFloat dtype number).Full := by
  unfold ofFloat
  split_ifs <;> simp

@[simp, grind .]
theorem full_ofBool (truth : Bool) : (ofBool truth).Full := full_boolConst truth

@[simp, grind =]
theorem full_mkBroadcast : (mkBroadcast value lanes).Full ↔ value.Full := full_broadcast

theorem full_retype? (retypes : retype? dtype expr = some built) : built.Full := by
  have scalar : ∀ {expr}, retypeScalar? dtype expr = some built → built.Full := by
    intro expr retypes
    unfold retypeScalar? at retypes
    grind
  unfold retype? at retypes
  split at retypes <;> exact scalar retypes

theorem full_unify (left : lhs.Full) (right : rhs.Full) :
    (unify lhs rhs).1.Full ∧ (unify lhs rhs).2.Full := by
  rcases unify_cases lhs rhs with unified | ⟨retyped, retypes, unified⟩ | ⟨retyped, retypes, unified⟩
  · rw [unified]
    exact ⟨left, right⟩
  · rw [unified]
    exact ⟨left, full_retype? retypes⟩
  · rw [unified]
    exact ⟨full_retype? retypes, right⟩

@[grind .]
theorem full_binary? (builds : binary? op lhs rhs = some built) (left : lhs.Full) (right : rhs.Full) :
    built.Full := by
  obtain ⟨-, rfl, -⟩ := binary?_unify builds
  exact full_binary.mpr (full_unify left right)

@[grind .]
theorem full_constant? {number : Int} (builds : constant? dtype number = some built) : built.Full := by
  obtain ⟨-, equal⟩ := Option.ite_none_right_eq_some.mp builds
  exact Option.some.inj equal ▸ full_ofInt number

@[grind .]
theorem full_constantLike? {like : Expr} {number : Int}
    (builds : constantLike? like number = some built) : built.Full := full_constant? builds

@[grind .]
theorem full_binaryConst? {number : Int} (builds : binaryConst? op lhs number = some built)
    (left : lhs.Full) : built.Full := by
  obtain ⟨constant, isConstant, builds⟩ := Option.bind_eq_some_iff.mp builds
  exact full_binary? builds left (full_constantLike? isConstant)

@[grind .]
theorem full_constBinary? {number : Int} (builds : constBinary? op number rhs = some built)
    (right : rhs.Full) : built.Full := by
  obtain ⟨constant, isConstant, builds⟩ := Option.bind_eq_some_iff.mp builds
  exact full_binary? builds (full_constantLike? isConstant) right

@[grind .]
theorem full_not? (builds : not? value = some built) (operand : value.Full) : built.Full := by
  obtain ⟨-, rfl⟩ := not?_eq_some builds
  exact full_not.mpr operand

@[grind .]
theorem full_select? {cond onTrue onFalse : Expr} (builds : select? cond onTrue onFalse = some built)
    (isCond : cond.Full) (taken : onTrue.Full) (other : onFalse.Full) : built.Full := by
  obtain ⟨rfl, -⟩ := select?_eq_some builds
  exact full_select.mpr ⟨isCond, full_unify taken other⟩

@[grind .]
theorem full_ramp? {base stride : Expr} (builds : ramp? base stride lanes = some built)
    (first : base.Full) (step : stride.Full) : built.Full := by
  obtain ⟨rfl, -⟩ := ramp?_eq_some builds
  exact full_ramp.mpr (full_unify first step)

/-! ### Parts of what is full -/

@[grind →]
theorem Full.of_asBinary? (full : expr.Full) (reads : expr.asBinary? = some (op, lhs, rhs)) :
    lhs.Full ∧ rhs.Full := by
  obtain ⟨dtype, rfl⟩ := asBinary?_eq_some.mp reads
  exact full_binary.mp full

@[grind →]
theorem Full.of_operands? (full : expr.Full) (reads : expr.operands? op = some (lhs, rhs)) :
    lhs.Full ∧ rhs.Full := by
  obtain ⟨dtype, rfl⟩ := operands?_eq_some.mp reads
  exact full_binary.mp full

@[grind →]
theorem Full.of_withConst? {term : Expr} {number : Int} (full : expr.Full)
    (reads : expr.withConst? op = some (term, number)) : term.Full := by
  obtain ⟨dtype, constType, rfl⟩ := withConst?_eq_some.mp reads
  exact (full_binary.mp full).1

@[grind →]
theorem Full.of_asBroadcast? (full : expr.Full) (reads : expr.asBroadcast? = some (value, lanes)) :
    value.Full := by
  obtain ⟨dtype, rfl⟩ := asBroadcast?_eq_some.mp reads
  exact full_broadcast.mp full

@[grind →]
theorem Full.of_asRamp? {base stride : Expr} (full : expr.Full)
    (reads : expr.asRamp? = some (base, stride, lanes)) : base.Full ∧ stride.Full := by
  obtain ⟨dtype, rfl⟩ := asRamp?_eq_some.mp reads
  exact full_ramp.mp full

/-! ### Variables that are renamed or replaced -/

mutual

theorem Renamed.full {image : Variable → Variable} :
    {expr renamed : Expr} → Renamed image expr renamed → expr.Full → renamed.Full
  | _, _, .var .., _ | _, _, .intConst .., _ | _, _, .floatConst .., _ | _, _, .boolConst .., _ => by
    simp
  | _, _, .cast _ value, full | _, _, .not _ value, full | _, _, .broadcast _ _ value, full => by
    simp only [full_cast, full_not, full_broadcast] at full ⊢
    exact value.full full
  | _, _, .binary _ _ left right, full | _, _, .ramp _ _ left right, full
  | _, _, .letIn _ _ _ _ left right, full => by
    simp only [full_binary, full_ramp, full_letIn] at full ⊢
    exact ⟨left.full full.1, right.full full.2⟩
  | _, _, .select _ cond onTrue onFalse, full => by
    rw [full_select] at full ⊢
    exact ⟨cond.full full.1, onTrue.full full.2.1, onFalse.full full.2.2⟩
  | _, _, .shuffle _ _ operands, full => by
    rw [full_iff] at full ⊢
    exact ⟨full.1, operands.full full.2⟩
  | _, _, .call _ _ operands, full => by
    rw [full_call] at full ⊢
    exact operands.full full

theorem RenamedList.full {image : Variable → Variable} :
    {exprs renamed : List Expr} → RenamedList image exprs renamed →
      (∀ expr ∈ exprs, expr.Full) → ∀ expr ∈ renamed, expr.Full
  | _, _, .nil, full => full
  | _, _, .cons first others, full => by
    rw [List.forall_mem_cons] at full ⊢
    exact ⟨first.full full.1, others.full full.2⟩

end

theorem Full.substituteWithin {replacement : Replacement}
    (values : ∀ name value, replacement name = some value → value.Full) (fuel : Nat)
    (hidden : List Variable) {expr : Expr} (full : expr.Full) :
    (substituteWithin fuel replacement hidden expr).Full := by
  induction fuel generalizing replacement hidden expr with
  | zero => exact full
  | succ fuel inductionHypothesis =>
    cases expr with
    | var type name =>
      rw [Expr.substituteWithin]
      split
      · exact full
      · cases found : replacement name with
        | none => exact full
        | some value => exact values name value found
    | letIn type name value body =>
      obtain ⟨isValue, isBody⟩ := full_letIn.mp full
      have value' := inductionHypothesis values hidden isValue
      rcases substituteWithin_letIn fuel replacement hidden type name value body with
        ⟨-, walked⟩ | ⟨fresh, -, -, walked⟩
      · rw [walked]
        exact full_letIn.mpr ⟨value', inductionHypothesis values _ isBody⟩
      · rw [walked]
        refine full_letIn.mpr ⟨value', inductionHypothesis values _ (inductionHypothesis ?_ _ isBody)⟩
        intro other renamed replaced
        obtain ⟨-, equal⟩ := Option.ite_none_right_eq_some.mp replaced
        exact Option.some.inj equal ▸ full_var fresh
    | _ =>
      rw [substituteWithin_of_not_isLet fuel replacement hidden rfl rfl]
      refine full.withChildren (List.length_map _) fun operand member => ?_
      obtain ⟨child, isChild, rfl⟩ := List.mem_map.mp member
      exact inductionHypothesis values hidden (full.child isChild)

end Expr

end IndexAlgebra
