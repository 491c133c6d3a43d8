/-
This file proves that renaming the bound variables of an expression apart keeps its type and its
value. Two expressions that differ only in bound variables are related by `Renamed`, where a
function says which variable stands for each one that occurs free. What the relation preserves is
proved once, and the renamed expression of `renameFrom` is in the relation.
-/
import IndexAlgebra.Expr.Renaming
import IndexAlgebra.Proofs.Evaluation
import IndexAlgebra.Proofs.FreshName
import IndexAlgebra.Proofs.Typing
import Mathlib.Logic.Function.Basic

namespace IndexAlgebra.Expr

/-! ### Expressions up to bound variables -/

mutual

/-- The second expression is the first one with each free variable replaced by its image, and
with bound variables that may differ. No free variable is captured. -/
inductive Renamed : (Variable → Variable) → Expr → Expr → Prop
  | var {image : Variable → Variable} (dtype : DataType) (name : Variable) :
    Renamed image (var dtype name) (var dtype (image name))
  | intConst {image : Variable → Variable} (dtype : DataType) (value : Int) :
    Renamed image (intConst dtype value) (intConst dtype value)
  | floatConst {image : Variable → Variable} (dtype : DataType) (value : Binary64) :
    Renamed image (floatConst dtype value) (floatConst dtype value)
  | boolConst {image : Variable → Variable} (dtype : DataType) (value : Bool) :
    Renamed image (boolConst dtype value) (boolConst dtype value)
  | cast {image : Variable → Variable} (dtype : DataType) {value value' : Expr} :
    Renamed image value value' → Renamed image (cast dtype value) (cast dtype value')
  | binary {image : Variable → Variable} (dtype : DataType) (op : BinaryOp)
      {lhs lhs' rhs rhs' : Expr} :
    Renamed image lhs lhs' → Renamed image rhs rhs' →
      Renamed image (binary dtype op lhs rhs) (binary dtype op lhs' rhs')
  | not {image : Variable → Variable} (dtype : DataType) {value value' : Expr} :
    Renamed image value value' → Renamed image (not dtype value) (not dtype value')
  | select {image : Variable → Variable} (dtype : DataType)
      {cond cond' onTrue onTrue' onFalse onFalse' : Expr} :
    Renamed image cond cond' → Renamed image onTrue onTrue' → Renamed image onFalse onFalse' →
      Renamed image (select dtype cond onTrue onFalse) (select dtype cond' onTrue' onFalse')
  | ramp {image : Variable → Variable} (dtype : DataType) {base base' stride stride' : Expr}
      (lanes : Nat) :
    Renamed image base base' → Renamed image stride stride' →
      Renamed image (ramp dtype base stride lanes) (ramp dtype base' stride' lanes)
  | broadcast {image : Variable → Variable} (dtype : DataType) {value value' : Expr}
      (lanes : Nat) :
    Renamed image value value' →
      Renamed image (broadcast dtype value lanes) (broadcast dtype value' lanes)
  | shuffle {image : Variable → Variable} (dtype : DataType) {vectors vectors' : List Expr}
      (indices : List Nat) :
    RenamedList image vectors vectors' →
      Renamed image (shuffle dtype vectors indices) (shuffle dtype vectors' indices)
  | letIn {image : Variable → Variable} (dtype : DataType) {name bound : Variable}
      {value value' body body' : Expr} :
    bound.dtype = name.dtype → bound.nonNegative = name.nonNegative →
      (∀ other ∈ body.freeOccurrences, other ≠ name → image other ≠ bound) →
      Renamed image value value' → Renamed (Function.update image name bound) body body' →
      Renamed image (letIn dtype name value body) (letIn dtype bound value' body')
  | call {image : Variable → Variable} (dtype : DataType) (op : CallOp)
      {args args' : List Expr} :
    RenamedList image args args' → Renamed image (call dtype op args) (call dtype op args')

/-- The expressions of the two lists are renamed one by one. -/
inductive RenamedList : (Variable → Variable) → List Expr → List Expr → Prop
  | nil {image : Variable → Variable} : RenamedList image [] []
  | cons {image : Variable → Variable} {expr expr' : Expr} {rest rest' : List Expr} :
    Renamed image expr expr' → RenamedList image rest rest' →
      RenamedList image (expr :: rest) (expr' :: rest')

end

theorem Renamed.dtype_eq {image : Variable → Variable} {expr renamed : Expr}
    (related : Renamed image expr renamed) : renamed.dtype = expr.dtype := by
  cases related <;> rfl

theorem RenamedList.map_dtype_eq {image : Variable → Variable} {exprs renamed : List Expr}
    (related : RenamedList image exprs renamed) :
    renamed.map dtype = exprs.map dtype := by
  induction exprs generalizing renamed with
  | nil => cases related; rfl
  | cons expr rest inductionHypothesis =>
    cases related with
    | cons first others => simp [first.dtype_eq, inductionHypothesis others]

theorem callTyped_of_map_dtype_eq {dtype : DataType} {op : CallOp} {args args' : List Expr}
    (types : args'.map Expr.dtype = args.map Expr.dtype) (typed : CallTyped dtype op args) :
    CallTyped dtype op args' := by
  have heads : args'.head?.map Expr.dtype = args.head?.map Expr.dtype := by
    rw [← List.head?_map, ← List.head?_map, types]
  have lengths : args'.length = args.length := by
    simpa using congrArg List.length types
  match op, args, args', typed with
  | .ifThenElse, [_, _, _], [_, _, _], typed => simp_all [CallTyped]
  | .external _, _, _, _ => trivial
  | .shiftLeft, _, _, typed | .shiftRight, _, _, typed | .bitwiseAnd, _, _, typed
  | .bitwiseOr, _, _, typed | .bitwiseXor, _, _, typed | .bitwiseNot, _, _, typed =>
    rw [CallTyped] at typed ⊢ <;> simp_all

mutual

/-- A renamed expression is typed as before if every image has the type of its variable. -/
theorem Renamed.wellTyped {image : Variable → Variable} :
    {expr renamed : Expr} → Renamed image expr renamed →
      (∀ name ∈ expr.freeOccurrences, (image name).dtype = name.dtype) → expr.WellTyped →
      renamed.WellTyped
  | _, _, .var dtype name, kept, typed => by
    rw [WellTyped] at typed ⊢
    rw [kept name (List.mem_singleton_self name)]
    exact typed
  | _, _, .intConst .., _, typed | _, _, .floatConst .., _, typed | _, _, .boolConst .., _, typed =>
    typed
  | _, _, .cast dtype value, kept, typed => by
    rw [WellTyped, lanes] at typed ⊢
    exact ⟨value.wellTyped kept typed.1, typed.2.1, by rw [value.dtype_eq]; exact typed.2.2⟩
  | _, _, .binary dtype op left right, kept, typed => by
    rw [freeOccurrences] at kept
    rw [WellTyped] at typed ⊢
    rw [left.dtype_eq, right.dtype_eq]
    exact ⟨left.wellTyped (fun name member => kept name (List.mem_append_left _ member)) typed.1,
      right.wellTyped (fun name member => kept name (List.mem_append_right _ member)) typed.2.1,
      typed.2.2⟩
  | _, _, .not dtype value, kept, typed => by
    rw [WellTyped] at typed ⊢
    rw [value.dtype_eq]
    exact ⟨value.wellTyped kept typed.1, typed.2⟩
  | _, _, .select dtype cond onTrue onFalse, kept, typed => by
    simp only [freeOccurrences, List.mem_append] at kept
    rw [WellTyped, lanes, lanes] at typed ⊢
    rw [cond.dtype_eq, onTrue.dtype_eq, onFalse.dtype_eq]
    exact ⟨cond.wellTyped (fun name member => kept name (.inl (.inl member))) typed.1,
      onTrue.wellTyped (fun name member => kept name (.inl (.inr member))) typed.2.1,
      onFalse.wellTyped (fun name member => kept name (.inr member)) typed.2.2.1, typed.2.2.2⟩
  | _, _, .ramp dtype _ base stride, kept, typed => by
    rw [freeOccurrences] at kept
    rw [WellTyped, lanes] at typed ⊢
    rw [base.dtype_eq, stride.dtype_eq]
    exact ⟨base.wellTyped (fun name member => kept name (List.mem_append_left _ member)) typed.1,
      stride.wellTyped (fun name member => kept name (List.mem_append_right _ member)) typed.2.1,
      typed.2.2⟩
  | _, _, .broadcast dtype _ value, kept, typed => by
    rw [WellTyped, lanes] at typed ⊢
    rw [value.dtype_eq]
    exact ⟨value.wellTyped kept typed.1, typed.2⟩
  | _, _, .shuffle dtype _ vectors, kept, typed => by
    rw [WellTyped] at typed ⊢
    refine ⟨vectors.wellTyped kept typed.1, ?_, typed.2.2⟩
    have types := vectors.map_dtype_eq
    intro vector member
    have inMap : vector.dtype ∈ List.map Expr.dtype _ := List.mem_map_of_mem member
    rw [types] at inMap
    obtain ⟨original, isVector, equal⟩ := List.mem_map.mp inMap
    rw [← equal]
    exact typed.2.1 original isVector
  | _, _, .letIn dtype keptType keptMark apart value body, kept, typed => by
    simp only [freeOccurrences, List.mem_append, List.mem_filter, decide_eq_true_eq] at kept
    rw [WellTyped] at typed ⊢
    rw [value.dtype_eq, body.dtype_eq, keptType]
    refine ⟨value.wellTyped (fun name member => kept name (.inl member)) typed.1,
      body.wellTyped (fun other member => ?_) typed.2.1, typed.2.2⟩
    rename_i name bound _ _ _ _
    by_cases same : other = name
    · rw [same, Function.update_self, keptType]
    · rw [Function.update_of_ne same]
      exact kept other (.inr ⟨member, same⟩)
  | _, _, .call dtype op args, kept, typed => by
    rw [WellTyped] at typed ⊢
    exact ⟨args.wellTyped kept typed.1, typed.2.1,
      callTyped_of_map_dtype_eq args.map_dtype_eq typed.2.2⟩

theorem RenamedList.wellTyped {image : Variable → Variable} :
    {exprs renamed : List Expr} → RenamedList image exprs renamed →
      (∀ name ∈ freeOccurrencesList exprs, (image name).dtype = name.dtype) →
      AllWellTyped exprs → AllWellTyped renamed
  | _, _, .nil, _, typed => typed
  | _, _, .cons first others, kept, typed => by
    rw [freeOccurrencesList] at kept
    rw [AllWellTyped] at typed ⊢
    exact ⟨first.wellTyped (fun name member => kept name (List.mem_append_left _ member)) typed.1,
      others.wellTyped (fun name member => kept name (List.mem_append_right _ member)) typed.2⟩

end

mutual

/-- What renaming keeps of a node is the same of all nodes of a renamed expression, in their order. -/
theorem Renamed.map_postOrder {α : Type} {kind : Expr → α}
    (keeps : ∀ {image expr renamed}, Renamed image expr renamed → kind renamed = kind expr)
    {image : Variable → Variable} : {expr renamed : Expr} → Renamed image expr renamed →
      renamed.postOrder.map kind = expr.postOrder.map kind
  | _, _, related@(.var ..) | _, _, related@(.intConst ..) | _, _, related@(.floatConst ..)
  | _, _, related@(.boolConst ..) => by
    simp only [postOrder, List.map_cons, List.map_nil, keeps related]
  | _, _, related@(.cast _ value) | _, _, related@(.not _ value)
  | _, _, related@(.broadcast _ _ value) => by
    simp only [postOrder, List.map_append, value.map_postOrder keeps, List.map_cons, List.map_nil,
      keeps related]
  | _, _, related@(.binary _ _ left right) | _, _, related@(.ramp _ _ left right) => by
    simp only [postOrder, List.map_append, left.map_postOrder keeps, right.map_postOrder keeps,
      List.map_cons, List.map_nil, keeps related]
  | _, _, related@(.select _ cond onTrue onFalse) => by
    simp only [postOrder, List.map_append, cond.map_postOrder keeps, onTrue.map_postOrder keeps,
      onFalse.map_postOrder keeps, List.map_cons, List.map_nil, keeps related]
  | _, _, related@(.shuffle _ _ operands) | _, _, related@(.call _ _ operands) => by
    simp only [postOrder, List.map_append, operands.map_postOrder keeps, List.map_cons, List.map_nil,
      keeps related]
  | _, _, related@(.letIn _ _ _ _ value body) => by
    simp only [postOrder, List.map_append, value.map_postOrder keeps, body.map_postOrder keeps,
      List.map_cons, List.map_nil, keeps related]

theorem RenamedList.map_postOrder {α : Type} {kind : Expr → α}
    (keeps : ∀ {image expr renamed}, Renamed image expr renamed → kind renamed = kind expr)
    {image : Variable → Variable} : {exprs renamed : List Expr} → RenamedList image exprs renamed →
      (postOrderList renamed).map kind = (postOrderList exprs).map kind
  | _, _, .nil => rfl
  | _, _, .cons first others => by
    rw [postOrderList, postOrderList, List.map_append, List.map_append, first.map_postOrder keeps,
      others.map_postOrder keeps]

end

/-- A property of nodes that renaming keeps holds of every node of a renamed expression. -/
theorem Renamed.forall_postOrder {property : Expr → Prop}
    (keeps : ∀ {image expr renamed}, Renamed image expr renamed → (property renamed ↔ property expr))
    {image : Variable → Variable} {expr renamed : Expr} (related : Renamed image expr renamed)
    (each : ∀ node ∈ expr.postOrder, property node) : ∀ node ∈ renamed.postOrder, property node := by
  intro node member
  have isNode : property node ∈ renamed.postOrder.map property := List.mem_map_of_mem member
  rw [related.map_postOrder fun related => propext (keeps related)] at isNode
  obtain ⟨original, isOriginal, same⟩ := List.mem_map.mp isNode
  exact same ▸ each original isOriginal

theorem Renamed.integral {image : Variable → Variable} {expr renamed : Expr}
    (related : Renamed image expr renamed) (integral : expr.Integral) : renamed.Integral :=
  related.forall_postOrder (fun related => by rw [related.dtype_eq]) integral

/-! ### Meaning -/

/-- The image of a variable that a binding hides has the value of the bound variable, and the
image of every other one the value it had. -/
theorem agree_set {image : Variable → Variable} {env env' : Environment} {body : Expr}
    {name bound : Variable} (value : Value)
    (agree : ∀ other ∈ body.freeOccurrences, other ≠ name → env' (image other) = env other)
    (apart : ∀ other ∈ body.freeOccurrences, other ≠ name → image other ≠ bound) :
    ∀ other ∈ body.freeOccurrences,
      env'.set bound value (Function.update image name bound other) = env.set name value other := by
  intro other member
  by_cases same : other = name
  · rw [same, Function.update_self, env'.set_self, env.set_self]
  · rw [Function.update_of_ne same, env'.set_of_ne value (apart other member same),
      env.set_of_ne value same]
    exact agree other member same

mutual

/-- A renamed expression has the value of the original where every image has the value of its
variable. -/
theorem Renamed.evaluate_eq {check : RangeCheck} {image : Variable → Variable}
    {env env' : Environment} :
    {expr renamed : Expr} → Renamed image expr renamed →
      (∀ name ∈ expr.freeOccurrences, env' (image name) = env name) →
      evaluate check env' renamed = evaluate check env expr
  | _, _, .var dtype name, agree => by
    rw [evaluate, evaluate]
    exact agree name (List.mem_singleton_self name)
  | _, _, .intConst .., _ | _, _, .floatConst .., _ | _, _, .boolConst .., _ => by
    rw [evaluate, evaluate]
  | _, _, .cast dtype value, agree => by
    rw [evaluate, evaluate, value.evaluate_eq agree]
  | _, _, .binary dtype op left right, agree => by
    simp only [freeOccurrences, List.mem_append] at agree
    rw [evaluate, evaluate, left.evaluate_eq (fun name member => agree name (.inl member)),
      right.evaluate_eq (fun name member => agree name (.inr member)), left.dtype_eq]
  | _, _, .not dtype value, agree => by
    rw [evaluate, evaluate, value.evaluate_eq agree]
  | _, _, .select dtype cond onTrue onFalse, agree => by
    simp only [freeOccurrences, List.mem_append] at agree
    rw [evaluate, evaluate, cond.evaluate_eq (fun name member => agree name (.inl (.inl member))),
      onTrue.evaluate_eq (fun name member => agree name (.inl (.inr member))),
      onFalse.evaluate_eq (fun name member => agree name (.inr member))]
  | _, _, .ramp dtype _ base stride, agree => by
    simp only [freeOccurrences, List.mem_append] at agree
    rw [evaluate, evaluate, base.evaluate_eq (fun name member => agree name (.inl member)),
      stride.evaluate_eq (fun name member => agree name (.inr member))]
  | _, _, .broadcast dtype _ value, agree => by
    rw [evaluate, evaluate, value.evaluate_eq agree]
  | _, _, .shuffle dtype _ vectors, agree => by
    rw [evaluate, evaluate,
      evaluateLanes_congr (vectors.map_evaluate_eq agree) vectors.map_dtype_eq]
  | _, _, .letIn dtype _ _ apart value body, agree => by
    simp only [freeOccurrences, List.mem_append, List.mem_filter, decide_eq_true_eq] at agree
    rw [evaluate, evaluate, value.evaluate_eq (fun name member => agree name (.inl member))]
    congr 1
    funext bound
    refine body.evaluate_eq (agree_set bound ?_ apart)
    exact fun other member different => agree other (.inr ⟨member, different⟩)
  | _, _, .call dtype op args, agree =>
    evaluate_call_congr dtype op (args.map_evaluate_eq agree)

theorem RenamedList.map_evaluate_eq {check : RangeCheck} {image : Variable → Variable}
    {env env' : Environment} :
    {exprs renamed : List Expr} → RenamedList image exprs renamed →
      (∀ name ∈ freeOccurrencesList exprs, env' (image name) = env name) →
      renamed.map (evaluate check env') = exprs.map (evaluate check env)
  | _, _, .nil, _ => rfl
  | _, _, .cons first others, agree => by
    simp only [freeOccurrencesList, List.mem_append] at agree
    rw [List.map_cons, List.map_cons,
      first.evaluate_eq (fun name member => agree name (.inl member)),
      others.map_evaluate_eq (fun name member => agree name (.inr member))]

end

mutual

/-- An expression is renamed to itself by every function that keeps its free variables. -/
theorem Renamed.refl {image : Variable → Variable} :
    (expr : Expr) → (∀ name ∈ expr.freeOccurrences, image name = name) → Renamed image expr expr
  | .var dtype name, kept => by
    have self : Renamed image (var dtype name) (var dtype (image name)) := .var dtype name
    rwa [kept name (List.mem_singleton_self name)] at self
  | .intConst dtype value, _ => .intConst dtype value
  | .floatConst dtype value, _ => .floatConst dtype value
  | .boolConst dtype value, _ => .boolConst dtype value
  | .cast dtype value, kept => .cast dtype (.refl value kept)
  | .binary dtype op lhs rhs, kept => by
    simp only [freeOccurrences, List.mem_append] at kept
    exact .binary dtype op (.refl lhs fun name member => kept name (.inl member))
      (.refl rhs fun name member => kept name (.inr member))
  | .not dtype value, kept => .not dtype (.refl value kept)
  | .select dtype cond onTrue onFalse, kept => by
    simp only [freeOccurrences, List.mem_append] at kept
    exact .select dtype (.refl cond fun name member => kept name (.inl (.inl member)))
      (.refl onTrue fun name member => kept name (.inl (.inr member)))
      (.refl onFalse fun name member => kept name (.inr member))
  | .ramp dtype base stride lanes, kept => by
    simp only [freeOccurrences, List.mem_append] at kept
    exact .ramp dtype lanes (.refl base fun name member => kept name (.inl member))
      (.refl stride fun name member => kept name (.inr member))
  | .broadcast dtype value lanes, kept => .broadcast dtype lanes (.refl value kept)
  | .shuffle dtype vectors indices, kept => .shuffle dtype indices (.refl vectors kept)
  | .letIn dtype name value body, kept => by
    simp only [freeOccurrences, List.mem_append, List.mem_filter, decide_eq_true_eq] at kept
    have keptOther : ∀ other ∈ body.freeOccurrences, other ≠ name → image other = other :=
      fun other member different => kept other (.inr ⟨member, different⟩)
    refine .letIn dtype rfl rfl ?_ (.refl value fun other member => kept other (.inl member))
      (.refl body ?_)
    · intro other member different
      rw [keptOther other member different]
      exact different
    · intro other member
      by_cases same : other = name
      · rw [same, Function.update_self]
      · rw [Function.update_of_ne same, keptOther other member same]
  | .call dtype op args, kept => .call dtype op (.refl args kept)

theorem RenamedList.refl {image : Variable → Variable} :
    (exprs : List Expr) → (∀ name ∈ freeOccurrencesList exprs, image name = name) →
      RenamedList image exprs exprs
  | [], _ => .nil
  | expr :: rest, kept => by
    simp only [freeOccurrencesList, List.mem_append] at kept
    exact .cons (.refl expr fun name member => kept name (.inl member))
      (.refl rest fun name member => kept name (.inr member))

end

/-- The value of an expression does not depend on more than the values of its free variables. -/
theorem evaluate_congr {check : RangeCheck} {env env' : Environment} {expr : Expr}
    (agree : ∀ name ∈ expr.freeOccurrences, env' name = env name) :
    evaluate check env' expr = evaluate check env expr := by
  have self : Renamed id expr expr := .refl expr fun _ _ => rfl
  exact self.evaluate_eq agree

end IndexAlgebra.Expr
