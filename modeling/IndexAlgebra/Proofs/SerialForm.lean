/-
This file proves that the written form of an expression is read back as the expression, and that no two
expressions have the same written form. The form is a tree of data, and it is a JSON text; a reader of
texts that stops at a limit of nesting reads an expression that is not nested any deeper.
-/
import IndexAlgebra.Expr.Serial
import IndexAlgebra.Proofs.JsonText
import IndexAlgebra.Proofs.Typing

namespace IndexAlgebra

/-! ### Expressions that are written -/

/-- The numbers of the type fit the fields that hold them, of 8 and of 16 bits. -/
def DataType.FitsFields (dtype : DataType) : Prop := dtype.bits ≤ 255 ∧ dtype.lanes ≤ 65535

instance (dtype : DataType) : Decidable dtype.FitsFields := by
  unfold DataType.FitsFields
  infer_instance

namespace Expr

/-- The numbers of the node fit the fields that hold them: those of its types, lanes of 16 bits, indices
of 32 bits, and constants that are words. -/
def FitsFields : Expr → Prop
  | var dtype name => dtype.FitsFields ∧ name.dtype.FitsFields
  | intConst dtype value => dtype.FitsFields ∧ Word.Fits value
  | ramp dtype _ _ lanes | broadcast dtype _ lanes => dtype.FitsFields ∧ lanes ≤ 65535
  | shuffle dtype _ indices => dtype.FitsFields ∧ ∀ index ∈ indices, index ≤ 4294967295
  | letIn dtype name _ _ => dtype.FitsFields ∧ name.dtype.FitsFields
  | expr => expr.dtype.FitsFields

instance : (expr : Expr) → Decidable expr.FitsFields
  | var dtype name | letIn dtype name _ _ =>
    inferInstanceAs (Decidable (dtype.FitsFields ∧ name.dtype.FitsFields))
  | intConst dtype value => inferInstanceAs (Decidable (dtype.FitsFields ∧ Word.Fits value))
  | ramp dtype _ _ lanes | broadcast dtype _ lanes =>
    inferInstanceAs (Decidable (dtype.FitsFields ∧ lanes ≤ 65535))
  | shuffle dtype _ indices =>
    inferInstanceAs (Decidable (dtype.FitsFields ∧ ∀ index ∈ indices, index ≤ 4294967295))
  | floatConst dtype _ | boolConst dtype _ | cast dtype _ | binary dtype _ _ _ | not dtype _
  | select dtype _ _ _ | call dtype _ _ => inferInstanceAs (Decidable dtype.FitsFields)

theorem FitsFields.dtype {expr : Expr} (fits : expr.FitsFields) : expr.dtype.FitsFields := by
  unfold FitsFields at fits
  split at fits
  next => exact fits.1
  next => exact fits.1
  next => exact fits.1
  next => exact fits.1
  next => exact fits.1
  next => exact fits.1
  next => exact fits

/-- The numbers of every node fit their fields, and no node is a floating-point constant. -/
def Written (expr : Expr) : Prop :=
  ∀ node ∈ expr.postOrder, node.FitsFields ∧ node.asFloat? = none

instance (expr : Expr) : Decidable expr.Written := by unfold Written; infer_instance

theorem Written.self {expr : Expr} (written : expr.Written) :
    expr.FitsFields ∧ expr.asFloat? = none :=
  written expr expr.self_mem_postOrder

theorem Written.child {expr child : Expr} (written : expr.Written) (isChild : child ∈ expr.children) :
    child.Written :=
  fun node member => written node (mem_postOrder.mpr (.inr ⟨child, isChild, member⟩))

end Expr

/-! ### Parts of a node -/

section

variable {limit value : Nat}

theorem Tree.natUpTo?_int (small : value ≤ limit) : (Tree.int value).natUpTo? limit = some value := by
  have within : (0 : Int) ≤ value ∧ (value : Int) ≤ limit := ⟨Int.natCast_nonneg _, Int.ofNat_le.mpr small⟩
  simp only [Tree.natUpTo?, if_pos within, Int.toNat_natCast]

theorem Tree.exact_int (small : value ≤ 4294967295) : (Tree.int value).Exact := by
  unfold Tree.Exact Word.least Word.size
  omega

theorem Tree.exact_word {value : Int} (fits : Word.Fits value) : (Tree.int value).Exact := by
  unfold Tree.Exact Word.size
  unfold Word.Fits Word.greatest at fits
  omega

theorem Tree.mapM_natUpTo? {values : List Nat} (small : ∀ value ∈ values, value ≤ limit) :
    (values.map fun (value : Nat) => Tree.int value).mapM (Tree.natUpTo? limit) = some values := by
  induction values with
  | nil => rfl
  | cons value values inductionHypothesis =>
    obtain ⟨first, others⟩ := List.forall_mem_cons.mp small
    rw [List.map_cons, List.mapM_cons, inductionHypothesis others, Tree.natUpTo?_int first]
    rfl

end

theorem DataType.ofTree?_toTree {dtype : DataType} (fits : dtype.FitsFields) :
    ofTree? dtype.toTree = some dtype := by
  obtain ⟨code, bits, lanes⟩ := dtype
  have isCode : TypeCode.all.find? (fun other => other.tag == code.tag) = some code := by
    cases code <;> rfl
  have isBits : (Tree.int bits).natUpTo? 255 = some bits := Tree.natUpTo?_int fits.1
  have isLanes : (Tree.int lanes).natUpTo? 65535 = some lanes := Tree.natUpTo?_int fits.2
  simp only [toTree, ofTree?, Tree.fields?]
  change (do
    let code ← TypeCode.all.find? fun other : TypeCode => other.tag == code.tag
    return DataType.mk code (← (Tree.int bits).natUpTo? 255) (← (Tree.int lanes).natUpTo? 65535)) = _
  rw [isCode, isBits, isLanes]
  rfl

theorem Variable.ofTree?_toTree {name : Variable} (fits : name.dtype.FitsFields) :
    ofTree? name.toTree = some name := by
  obtain ⟨text, dtype, nonNegative⟩ := name
  change (do return Variable.mk text (← DataType.ofTree? dtype.toTree) nonNegative) = _
  rw [DataType.ofTree?_toTree fits]
  rfl

theorem BinaryOp.ofTree?_toTree (op : BinaryOp) : ofTree? op.toTree = some op := by
  cases op <;> rfl

theorem CallOp.ofTree?_toTree (op : CallOp) : ofTree? op.toTree = some op := by
  cases op <;> rfl

namespace Expr

variable {expr child : Expr} {exprs : List Expr} {fuel : Nat}

/-! ### Nesting -/

theorem toTreeList_eq_map (exprs : List Expr) : toTreeList exprs = exprs.map toTree := by
  induction exprs with
  | nil => rfl
  | cons expr rest inductionHypothesis => rw [toTreeList, inductionHypothesis, List.map_cons]

theorem depth_le_depthList {item : Tree} {items : List Tree} (member : item ∈ items) :
    item.depth ≤ Tree.depthList items := by
  induction items with
  | nil => cases member
  | cons first rest inductionHypothesis =>
    rw [Tree.depthList]
    rcases List.mem_cons.mp member with rfl | inRest
    · exact Nat.le_max_left _ _
    · exact Nat.le_trans (inductionHypothesis inRest) (Nat.le_max_right _ _)

theorem depth_toTree_le_depthList (member : expr ∈ exprs) :
    expr.toTree.depth ≤ Tree.depthList (toTreeList exprs) :=
  depth_le_depthList (toTreeList_eq_map exprs ▸ List.mem_map_of_mem member)

theorem depth_toTree_pos (expr : Expr) : 1 ≤ expr.toTree.depth := by
  cases expr <;> (simp only [toTree, Tree.depth]; omega)

/-- The tree of an operand is nested in the tree of the node. -/
theorem depth_toTree_child (isChild : child ∈ expr.children) :
    child.toTree.depth < expr.toTree.depth := by
  cases expr with
  | shuffle dtype vectors indices =>
    have inside := depth_toTree_le_depthList isChild
    rw [children] at inside
    simp only [toTree, Tree.depth, Tree.depthList, Tree.depthFields]
    omega
  | call dtype op args =>
    have inside := depth_toTree_le_depthList isChild
    rw [children] at inside
    simp only [toTree, Tree.depth, Tree.depthList, Tree.depthFields]
    omega
  | var | intConst | floatConst | boolConst => cases isChild
  | cast | not | broadcast =>
    obtain rfl := List.mem_singleton.mp isChild
    simp only [toTree, Tree.depth, Tree.depthList, Tree.depthFields]
    omega
  | binary | ramp | letIn =>
    simp only [toTree, Tree.depth, Tree.depthList, Tree.depthFields]
    rcases List.mem_pair.mp isChild with rfl | rfl <;> omega
  | select dtype cond onTrue onFalse =>
    simp only [children, List.mem_cons, List.not_mem_nil, or_false] at isChild
    simp only [toTree, Tree.depth, Tree.depthList, Tree.depthFields]
    rcases isChild with rfl | rfl | rfl <;> omega

/-! ### Reading -/

theorem forall_mem_pair {holds : Expr → Prop} {first second : Expr}
    (all : ∀ expr ∈ [first, second], holds expr) : holds first ∧ holds second :=
  ⟨all first (by simp), all second (by simp)⟩

theorem mapM_readTree (read : ∀ expr ∈ exprs, readTree fuel expr.toTree = some expr) :
    (toTreeList exprs).mapM (readTree fuel) = some exprs := by
  induction exprs with
  | nil => rfl
  | cons expr exprs inductionHypothesis =>
    obtain ⟨first, others⟩ := List.forall_mem_cons.mp read
    rw [toTreeList, List.mapM_cons, first, inductionHypothesis others]
    rfl

/-- The tree of an expression is read as the expression. -/
theorem readTree_toTree (written : expr.Written) (enough : expr.toTree.depth ≤ fuel) :
    readTree fuel expr.toTree = some expr := by
  induction expr using childrenInduction generalizing fuel with
  | step expr inductionHypothesis =>
    obtain ⟨less, rfl⟩ := Nat.exists_eq_add_of_le' (Nat.le_trans expr.depth_toTree_pos enough)
    have fits := written.self.1
    have isType := DataType.ofTree?_toTree fits.dtype
    have read : ∀ child ∈ expr.children, readTree less child.toTree = some child := by
      intro child isChild
      have nested := depth_toTree_child isChild
      exact inductionHypothesis child isChild (written.child isChild) (by omega)
    cases expr with
    | var type name =>
      have isName := Variable.ofTree?_toTree fits.2
      simp only [dtype] at isType
      simp only [toTree, readTree, isType, Tree.tagged?, isName, Option.bind_eq_bind, Option.bind_some]
      rfl
    | intConst type value =>
      have isWord : (Tree.int value).word? = some value := Word.ofInt?_eq_some_iff.mpr ⟨fits.2, rfl⟩
      simp only [dtype] at isType
      simp only [toTree, readTree, isType, Tree.tagged?, isWord, Option.bind_eq_bind, Option.bind_some]
      rfl
    | floatConst type value => cases written.self.2
    | boolConst type value =>
      simp only [dtype] at isType
      simp only [toTree, readTree, isType, Tree.tagged?, Tree.bool?, Option.bind_eq_bind,
        Option.bind_some]
      rfl
    | cast type value =>
      have isValue := read value List.mem_cons_self
      simp only [dtype] at isType
      simp only [toTree, readTree, isType, Tree.tagged?, isValue, Option.bind_eq_bind, Option.bind_some]
      rfl
    | binary type op lhs rhs =>
      obtain ⟨left, right⟩ := forall_mem_pair read
      simp only [dtype] at isType
      simp only [toTree, readTree, isType, Tree.tagged?, BinaryOp.ofTree?_toTree, left, right,
        Option.bind_eq_bind, Option.bind_some]
      rfl
    | not type value =>
      have isValue := read value List.mem_cons_self
      simp only [dtype] at isType
      simp only [toTree, readTree, isType, Tree.tagged?, isValue, Option.bind_eq_bind, Option.bind_some]
      rfl
    | select type cond onTrue onFalse =>
      obtain ⟨isCond, branches⟩ := List.forall_mem_cons.mp read
      obtain ⟨first, second⟩ := forall_mem_pair branches
      simp only [dtype] at isType
      simp only [toTree, readTree, isType, Tree.tagged?, isCond, first, second, Option.bind_eq_bind,
        Option.bind_some]
      rfl
    | ramp type base stride lanes =>
      obtain ⟨isBase, isStride⟩ := forall_mem_pair read
      have isLanes : (Tree.int lanes).natUpTo? 65535 = some lanes := Tree.natUpTo?_int fits.2
      have parts (first second third : Tree) :
          (Tree.record [("base", first), ("stride", second), ("lanes", third)]).recordFields?
            ["base", "stride", "lanes"] = some [first, second, third] := rfl
      simp only [dtype] at isType
      simp only [toTree, readTree, isType, Tree.tagged?, parts, isBase, isStride, isLanes,
        Option.bind_eq_bind, Option.bind_some]
      rfl
    | broadcast type value lanes =>
      have isValue := read value List.mem_cons_self
      have isLanes : (Tree.int lanes).natUpTo? 65535 = some lanes := Tree.natUpTo?_int fits.2
      have parts (first second : Tree) : (Tree.record [("value", first), ("lanes", second)]).recordFields?
          ["value", "lanes"] = some [first, second] := rfl
      simp only [dtype] at isType
      simp only [toTree, readTree, isType, Tree.tagged?, parts, isValue, isLanes, Option.bind_eq_bind,
        Option.bind_some]
      rfl
    | shuffle type vectors indices =>
      have areVectors : (toTreeList vectors).mapM (readTree less) = some vectors := mapM_readTree read
      have parts (first second : Tree) :
          (Tree.record [("vectors", first), ("indices", second)]).recordFields? ["vectors", "indices"] =
            some [first, second] := rfl
      simp only [dtype] at isType
      simp only [toTree, readTree, isType, Tree.tagged?, parts, areVectors, Tree.mapM_natUpTo? fits.2,
        Option.bind_eq_bind, Option.bind_some]
      rfl
    | letIn type name value body =>
      obtain ⟨isValue, isBody⟩ := forall_mem_pair read
      have isName := Variable.ofTree?_toTree fits.2
      have parts (first second third : Tree) :
          (Tree.record [("var", first), ("value", second), ("body", third)]).recordFields?
            ["var", "value", "body"] = some [first, second, third] := rfl
      simp only [dtype] at isType
      simp only [toTree, readTree, isType, Tree.tagged?, parts, isName, isValue, isBody,
        Option.bind_eq_bind, Option.bind_some]
      rfl
    | call type op args =>
      have areArgs : (toTreeList args).mapM (readTree less) = some args := mapM_readTree read
      have parts (first second : Tree) :
          (Tree.record [("op", first), ("args", second)]).recordFields? ["op", "args"] =
            some [first, second] := rfl
      simp only [dtype] at isType
      simp only [toTree, readTree, isType, Tree.tagged?, parts, areArgs, CallOp.ofTree?_toTree,
        Option.bind_eq_bind, Option.bind_some]
      rfl

theorem ofTree?_toTree (written : expr.Written) : ofTree? expr.toTree = some expr :=
  readTree_toTree written (Nat.le_refl _)

/-! ### Texts -/

theorem exactList_toTreeList (exact : ∀ expr ∈ exprs, expr.toTree.Exact) :
    Tree.ExactList (toTreeList exprs) := by
  induction exprs with
  | nil => trivial
  | cons expr exprs inductionHypothesis =>
    obtain ⟨first, others⟩ := List.forall_mem_cons.mp exact
    exact ⟨first, inductionHypothesis others⟩

theorem exactList_int {values : List Nat} (small : ∀ value ∈ values, value ≤ 4294967295) :
    Tree.ExactList (values.map fun (value : Nat) => Tree.int value) := by
  induction values with
  | nil => trivial
  | cons value values inductionHypothesis =>
    obtain ⟨first, others⟩ := List.forall_mem_cons.mp small
    exact ⟨Tree.exact_int (by omega), inductionHypothesis others⟩

theorem exact_toTree_dtype {type : DataType} (fits : type.FitsFields) : type.toTree.Exact :=
  ⟨trivial, rfl, Tree.exact_int (Nat.le_trans fits.1 (by decide)), rfl,
    Tree.exact_int (Nat.le_trans fits.2 (by decide)), rfl, trivial⟩

theorem exact_toTree_variable {name : Variable} (fits : name.dtype.FitsFields) :
    name.toTree.Exact :=
  ⟨trivial, rfl, exact_toTree_dtype fits, rfl, trivial, rfl, trivial⟩

theorem exact_toTree_op (op : CallOp) : op.toTree.Exact := by
  cases op with
  | external name => exact ⟨trivial, rfl, trivial⟩
  | _ => trivial

/-- The text of a written expression says all of it. -/
theorem exact_toTree (written : expr.Written) : expr.toTree.Exact := by
  induction expr using childrenInduction with
  | step expr inductionHypothesis =>
    have fits := written.self.1
    have isType := exact_toTree_dtype fits.dtype
    have exact : ∀ child ∈ expr.children, child.toTree.Exact := fun child isChild =>
      inductionHypothesis child isChild (written.child isChild)
    cases expr with
    | var type name =>
      exact ⟨isType, ⟨exact_toTree_variable fits.2, rfl, trivial⟩, trivial⟩
    | intConst type value =>
      have isWord : (Tree.int value).Exact := Tree.exact_word fits.2
      exact ⟨isType, ⟨isWord, rfl, trivial⟩, trivial⟩
    | floatConst type value => cases written.self.2
    | boolConst type value => exact ⟨isType, ⟨trivial, rfl, trivial⟩, trivial⟩
    | cast type value | not type value =>
      have isValue := exact value List.mem_cons_self
      exact ⟨isType, ⟨isValue, rfl, trivial⟩, trivial⟩
    | binary type op lhs rhs =>
      obtain ⟨left, right⟩ := forall_mem_pair exact
      exact ⟨isType, ⟨⟨trivial, left, right, trivial⟩, rfl, trivial⟩, trivial⟩
    | select type cond onTrue onFalse =>
      obtain ⟨isCond, branches⟩ := List.forall_mem_cons.mp exact
      obtain ⟨first, second⟩ := forall_mem_pair branches
      exact ⟨isType, ⟨⟨isCond, first, second, trivial⟩, rfl, trivial⟩, trivial⟩
    | ramp type base stride lanes =>
      obtain ⟨isBase, isStride⟩ := forall_mem_pair exact
      have isLanes : (Tree.int lanes).Exact := Tree.exact_int (Nat.le_trans fits.2 (by decide))
      exact ⟨isType, ⟨⟨isBase, rfl, isStride, rfl, isLanes, rfl, trivial⟩, rfl, trivial⟩, trivial⟩
    | broadcast type value lanes =>
      have isValue := exact value List.mem_cons_self
      have isLanes : (Tree.int lanes).Exact := Tree.exact_int (Nat.le_trans fits.2 (by decide))
      exact ⟨isType, ⟨⟨isValue, rfl, isLanes, rfl, trivial⟩, rfl, trivial⟩, trivial⟩
    | shuffle type vectors indices =>
      have areVectors : Tree.ExactList (toTreeList vectors) := exactList_toTreeList exact
      exact ⟨isType, ⟨⟨areVectors, rfl, exactList_int fits.2, rfl, trivial⟩, rfl, trivial⟩, trivial⟩
    | letIn type name value body =>
      obtain ⟨isValue, isBody⟩ := forall_mem_pair exact
      have isName := exact_toTree_variable fits.2
      exact ⟨isType, ⟨⟨isName, rfl, isValue, rfl, isBody, rfl, trivial⟩, rfl, trivial⟩, trivial⟩
    | call type op args =>
      have areArgs : Tree.ExactList (toTreeList args) := exactList_toTreeList exact
      exact ⟨isType, ⟨⟨exact_toTree_op op, rfl, areArgs, rfl, trivial⟩, rfl, trivial⟩, trivial⟩

/-! ### Written forms -/

theorem eq_of_toTree_eq {other : Expr} (written : expr.Written) (otherWritten : other.Written)
    (sameTree : other.toTree = expr.toTree) : other = expr := by
  have read := ofTree?_toTree otherWritten
  rw [sameTree, ofTree?_toTree written] at read
  exact (Option.some.inj read).symm

/-- The written form of an expression is read back as the expression: its tree, and its text up to any
depth of nesting that the tree does not exceed. An expression with the same tree or the same text is
the same expression. -/
theorem Written.form_readsBack (written : expr.Written) :
    ofTree? expr.toTree = some expr ∧
    (∀ depth, expr.toTree.nesting ≤ depth →
      Tree.readJson? (2 * expr.toTree.toJson.length + 1) depth expr.toTree.toJson.toList =
        some (expr.toTree, [])) ∧
    (expr.toTree.nesting ≤ Tree.nestingLimit →
      (Tree.ofJson? expr.toTree.toJson).bind ofTree? = some expr) ∧
    ∀ other : Expr, other.Written →
      (other.toTree = expr.toTree ∨ other.toTree.toJson = expr.toTree.toJson) → other = expr := by
  have exact := exact_toTree written
  refine ⟨ofTree?_toTree written, fun depth nested => ?_, fun nested => ?_, ?_⟩
  · have read := Tree.readJson?_toJson _ exact (2 * expr.toTree.toJson.length) depth [] nested
      (by omega) Tree.follows_nil
    rwa [List.append_nil] at read
  · rw [Tree.ofJson?_toJson exact nested]
    exact ofTree?_toTree written
  · rintro other otherWritten (sameTree | sameText)
    · exact eq_of_toTree_eq written otherWritten sameTree
    · exact eq_of_toTree_eq written otherWritten
        (Tree.eq_of_toJson_eq (exact_toTree otherWritten) exact sameText)

/-- A binding of a variable whose name has to be escaped, around a call, a choice of lanes and the
smallest word. -/
theorem Written.form_readsBack_escaped :
    let name : Variable := ⟨"a\"\né", .int64, true⟩
    let vector := DataType.withLanes .int64 2
    let args := [broadcast vector name.expr 2, ramp vector name.expr (intConst .int64 Word.least) 2]
    let expr := letIn vector name (intConst .int64 7)
      (shuffle vector [call vector (.external "f\tg") args] [1, 4294967295])
    ofTree? expr.toTree = some expr ∧ (Tree.ofJson? expr.toTree.toJson).bind ofTree? = some expr := by
  intro name vector args expr
  have written : expr.Written := by decide +kernel
  obtain ⟨tree, -, text, -⟩ := Written.form_readsBack written
  exact ⟨tree, text (by decide +kernel)⟩

end Expr

end IndexAlgebra
