/-
This file proves that the inferred bound of an expression does not depend on how its bound variables are
renamed apart, as long as no bound is recorded for an expression with bindings. A scope adds names to
those that are known, so that a bound variable may get another name inside than it has outside. A node
about which something is recorded has only variables with known names, and no renaming touches these.
-/
import IndexAlgebra.Proofs.Satisfaction
import IndexAlgebra.Proofs.SimultaneousSubstitution

namespace IndexAlgebra

namespace Expr

variable {image image' : Variable → Variable} {expr renamed renamed' : Expr}

/-! ### Renamed nodes -/

theorem RenamedList.forall₂ {exprs others : List Expr} (related : RenamedList image exprs others) :
    List.Forall₂ (Renamed image) exprs others := by
  induction exprs generalizing others with
  | nil =>
    cases related
    exact .nil
  | cons expr rest inductionHypothesis =>
    cases related with
    | cons first others => exact .cons first (inductionHypothesis others)

/-- A node that is no variable and no binding is renamed by renaming its operands. -/
theorem Renamed.exists_operands (related : Renamed image expr renamed)
    (notVariable : expr.asVariable? = none) (notLet : expr.isLet = false) :
    ∃ operands, List.Forall₂ (Renamed image) expr.children operands ∧
      renamed = expr.withChildren operands := by
  cases related with
  | var => cases notVariable
  | letIn => cases notLet
  | intConst | floatConst | boolConst => exact ⟨[], .nil, rfl⟩
  | cast _ value | not _ value | broadcast _ _ value => exact ⟨_, .cons value .nil, rfl⟩
  | binary _ _ left right | ramp _ _ left right => exact ⟨_, .cons left (.cons right .nil), rfl⟩
  | select _ cond onTrue onFalse =>
    exact ⟨_, .cons cond (.cons onTrue (.cons onFalse .nil)), rfl⟩
  | shuffle _ _ operands | call _ _ operands => exact ⟨_, operands.forall₂, rfl⟩

/-- What is the same of any two renamings of an operand is the same of two renamed lists of operands. -/
theorem map_eq_of_renamed {α : Type} {first second : Expr → α} {exprs operands operands' : List Expr}
    (left : List.Forall₂ (Renamed image) exprs operands)
    (right : List.Forall₂ (Renamed image') exprs operands')
    (same : ∀ expr ∈ exprs, ∀ renamed ∈ operands, ∀ renamed' ∈ operands',
      Renamed image expr renamed → Renamed image' expr renamed' → first renamed = second renamed') :
    operands.map first = operands'.map second := by
  induction left generalizing operands' with
  | nil =>
    cases right
    rfl
  | cons isFirst _ inductionHypothesis =>
    cases right with
    | cons isSecond others =>
      rw [List.map_cons, List.map_cons,
        same _ List.mem_cons_self _ List.mem_cons_self _ List.mem_cons_self isFirst isSecond]
      congr 1
      exact inductionHypothesis others fun expr isExpr renamed isRenamed renamed' isRenamed' =>
        same expr (List.mem_cons_of_mem _ isExpr) renamed (List.mem_cons_of_mem _ isRenamed)
          renamed' (List.mem_cons_of_mem _ isRenamed')

theorem hasLet_of_isLet (isLet : expr.isLet = true) : expr.hasLet = true :=
  List.any_eq_true.mpr ⟨expr, expr.self_mem_postOrder, isLet⟩

/-- Some node introduces a variable if the root does or a node inside an operand. -/
theorem hasLet_eq_any (expr : Expr) :
    expr.hasLet = (expr.isLet || (expr.children.map hasLet).any id) := by
  refine Bool.eq_iff_iff.mpr ?_
  simp only [Bool.or_eq_true, List.any_map, List.any_eq_true, Function.comp_apply, id_eq]
  constructor
  · intro inside
    obtain ⟨node, member, isLet⟩ := List.any_eq_true.mp inside
    rcases mem_postOrder.mp member with rfl | ⟨child, isChild, inside⟩
    · exact .inl isLet
    · exact .inr ⟨child, isChild, List.any_eq_true.mpr ⟨node, inside, isLet⟩⟩
  · rintro (isLet | ⟨child, isChild, inside⟩)
    · exact hasLet_of_isLet isLet
    · obtain ⟨node, member, isLet⟩ := List.any_eq_true.mp inside
      exact List.any_eq_true.mpr ⟨node, mem_postOrder.mpr (.inr ⟨child, isChild, member⟩), isLet⟩

theorem not_hasLet_iff : expr.hasLet = false ↔
    expr.isLet = false ∧ ∀ child ∈ expr.children, child.hasLet = false := by
  rw [hasLet_eq_any, Bool.or_eq_false_iff, List.any_map, List.any_eq_false]
  simp

theorem withChildren_operands_eq {operands operands' : List Expr}
    (same : operands.map id = operands'.map id) :
    expr.withChildren operands = expr.withChildren operands' := by
  rw [List.map_id, List.map_id] at same
  rw [same]

/-- An expression without bindings is renamed in one way by functions that agree on its variables. -/
theorem Renamed.unique (noLet : expr.hasLet = false) (left : Renamed image expr renamed)
    (right : Renamed image' expr renamed')
    (agree : ∀ name ∈ expr.freeOccurrences, image name = image' name) : renamed = renamed' := by
  induction expr using childrenInduction generalizing renamed renamed' with
  | step expr inductionHypothesis =>
    obtain ⟨notLet, noLets⟩ := not_hasLet_iff.mp noLet
    cases expr.shape with
    | var dtype name =>
      cases left
      cases right
      rw [agree name (List.mem_singleton_self name)]
    | letIn => contradiction
    | node notVariable _ =>
      obtain ⟨operands, leftOperands, rfl⟩ := left.exists_operands notVariable notLet
      obtain ⟨operands', rightOperands, rfl⟩ := right.exists_operands notVariable notLet
      refine withChildren_operands_eq (map_eq_of_renamed leftOperands rightOperands ?_)
      intro child isChild renamed _ renamed' _ left right
      exact inductionHypothesis child isChild (noLets child isChild) left right
        fun name free => agree name (mem_freeOccurrences_of_child notLet isChild free)

/-- Renaming neither adds nor removes bindings. -/
theorem Renamed.hasLet_eq (left : Renamed image expr renamed) (right : Renamed image' expr renamed') :
    renamed.hasLet = renamed'.hasLet := by
  induction expr using childrenInduction generalizing image image' renamed renamed' with
  | step expr inductionHypothesis =>
    cases expr.shape with
    | var dtype name =>
      cases left
      cases right
      rfl
    | letIn dtype name value body =>
      cases left
      cases right
      exact (hasLet_of_isLet rfl).trans (hasLet_of_isLet rfl).symm
    | node notVariable notLet =>
      obtain ⟨operands, leftOperands, rfl⟩ := left.exists_operands notVariable notLet
      obtain ⟨operands', rightOperands, rfl⟩ := right.exists_operands notVariable notLet
      rw [hasLet_eq_any, hasLet_eq_any (expr.withChildren operands'), isLet_withChildren,
        isLet_withChildren, children_withChildren leftOperands.length_eq.symm,
        children_withChildren rightOperands.length_eq.symm]
      congr 2
      exact map_eq_of_renamed leftOperands rightOperands fun child isChild _ _ _ _ =>
        inductionHypothesis child isChild

theorem hasOwnBound_withChildren {operands : List Expr}
    (length : operands.length = expr.children.length) :
    (expr.withChildren operands).hasOwnBound = expr.hasOwnBound := by
  cases expr with
  | shuffle dtype vectors indices =>
    cases operands <;> cases vectors <;> first | rfl | contradiction
  | call dtype op args =>
    show (op == .ifThenElse && operands.length == 3) = (op == .ifThenElse && args.length == 3)
    rw [length, children]
  | _ =>
    unfold withChildren
    split <;> simp_all [hasOwnBound]

/-- A renamed expression falls back as little as the original. -/
theorem Renamed.neverFallsBack (related : Renamed image expr renamed) (never : expr.NeverFallsBack) :
    renamed.NeverFallsBack := by
  induction expr using childrenInduction generalizing image renamed with
  | step expr inductionHypothesis =>
    obtain ⟨ownBound, operands⟩ := neverFallsBack_iff.mp never
    cases expr.shape with
    | var dtype name =>
      cases related
      exact neverFallsBack_iff.mpr ⟨rfl, fun _ isChild => absurd isChild List.not_mem_nil⟩
    | letIn dtype name value body =>
      cases related with
      | letIn _ _ _ _ ofValue ofBody =>
        simp only [children, List.forall_mem_cons] at operands
        refine neverFallsBack_iff.mpr ⟨rfl, ?_⟩
        simp only [children, List.forall_mem_cons]
        exact ⟨inductionHypothesis value (by simp [children]) ofValue operands.1,
          inductionHypothesis body (by simp [children]) ofBody operands.2.1, operands.2.2⟩
    | node notVariable notLet =>
      obtain ⟨parts, areRenamed, rfl⟩ := related.exists_operands notVariable notLet
      have length := areRenamed.length_eq.symm
      rw [neverFallsBack_iff, hasOwnBound_withChildren length, children_withChildren length]
      refine ⟨ownBound, fun part isPart => ?_⟩
      obtain ⟨index, inParts, rfl⟩ := List.mem_iff_getElem.mp isPart
      have isChild := List.getElem_mem (length ▸ inParts : index < expr.children.length)
      exact inductionHypothesis _ isChild (areRenamed.get _ inParts) (operands _ isChild)

end Expr

namespace Knowledge

open IndexAlgebra.Expr

variable {known : Knowledge} {image image' : Variable → Variable} {locals locals' : Table Bound}
  {expr renamed renamed' : Expr}

/-! ### What renaming leaves alone -/

/-- No bound is recorded for an expression with bindings. -/
def RecordsPlain (known : Knowledge) : Prop :=
  ∀ expr, expr.hasLet = true → known.recordedBounds expr = []

/-- Two images of a variable are the same one, and free, or they have the same bound from a binding and
names that are not known. -/
def LooksAlike (known : Knowledge) (locals locals' : Table Bound) (name name' : Variable) : Prop :=
  (name = name' ∧ locals.find? name = none ∧ locals'.find? name' = none) ∨
    ∃ bound, locals.find? name = some bound ∧ locals'.find? name' = some bound ∧
      name.name ∉ known.names ∧ name'.name ∉ known.names

theorem LooksAlike.eq_of_mem {name name' : Variable} (alike : known.LooksAlike locals locals' name name')
    (isKnown : name.name ∈ known.names ∨ name'.name ∈ known.names) : name = name' := by
  rcases alike with ⟨same, -⟩ | ⟨-, -, -, unknown, unknown'⟩
  · exact same
  · exact isKnown.elim (absurd · unknown) (absurd · unknown')

/-- In the body of a binding the images of the variable that it introduces have the bound of its value. -/
theorem LooksAlike.insert {name bound bound' other : Variable} (range : Bound)
    (unknown : bound.name ∉ known.names) (unknown' : bound'.name ∉ known.names)
    (alike : other ≠ name → known.LooksAlike locals locals' (image other) (image' other))
    (apart : other ≠ name → image other ≠ bound) (apart' : other ≠ name → image' other ≠ bound') :
    known.LooksAlike (locals.insert bound range) (locals'.insert bound' range)
      (Function.update image name bound other) (Function.update image' name bound' other) := by
  unfold LooksAlike
  by_cases same : other = name
  · rw [same, Function.update_self, Function.update_self, Table.find?_insert, Table.find?_insert,
      if_pos rfl, if_pos rfl]
    exact .inr ⟨range, rfl, rfl, unknown, unknown'⟩
  · rw [Function.update_of_ne same, Function.update_of_ne same, Table.find?_insert,
      Table.find?_insert, if_neg (apart same), if_neg (apart' same)]
    exact alike same

/-- What is recorded about two renamings of an expression is the same. -/
theorem recordedBounds_renamed (plain : known.RecordsPlain) (left : Renamed image expr renamed)
    (right : Renamed image' expr renamed')
    (alike : ∀ name ∈ expr.freeOccurrences, known.LooksAlike locals locals' (image name) (image' name)) :
    known.recordedBounds renamed = known.recordedBounds renamed' := by
  by_cases isLet : renamed.hasLet = true
  · rw [plain renamed isLet, plain renamed' (left.hasLet_eq right ▸ isLet)]
  have noLet : expr.hasLet = false :=
    ((Renamed.refl expr fun _ _ => rfl : Renamed id expr expr).hasLet_eq left).trans
      (Bool.eq_false_iff.mpr isLet)
  have same : (∃ bound, bound ∈ known.recordedBounds renamed ∨
      bound ∈ known.recordedBounds renamed') → renamed = renamed' := by
    rintro ⟨bound, member⟩
    refine left.unique noLet right fun name free => (alike name free).eq_of_mem ?_
    refine member.imp (fun inLeft => name_mem_names_of_recorded inLeft ?_)
      fun inRight => name_mem_names_of_recorded inRight ?_
    · rw [left.freeOccurrences_eq]
      exact List.mem_map_of_mem free
    · rw [right.freeOccurrences_eq]
      exact List.mem_map_of_mem free
  by_cases recorded : known.recordedBounds renamed = [] ∧ known.recordedBounds renamed' = []
  · rw [recorded.1, recorded.2]
  · rw [same]
    rcases not_and_or.mp recorded with some | some
    · obtain ⟨bound, member⟩ := List.exists_mem_of_ne_nil _ some
      exact ⟨bound, .inl member⟩
    · obtain ⟨bound, member⟩ := List.exists_mem_of_ne_nil _ some
      exact ⟨bound, .inr member⟩

theorem narrowBound_congr {raw : Bound}
    (same : known.recordedBounds renamed = known.recordedBounds renamed') :
    known.narrowBound renamed raw = known.narrowBound renamed' raw := by
  unfold narrowBound
  rw [boundOf?_eq, boundOf?_eq, same]

theorem ofNode?_withChildren (expr : Expr) (operands : List Expr) (bounds : List Bound) :
    Bound.ofNode? (expr.withChildren operands) bounds = Bound.ofNode? expr bounds := by
  unfold withChildren
  split <;> rfl

/-- The bound of a renamed node follows from the bounds of the operands. -/
theorem boundWithin_withChildren {operands : List Expr} (notVariable : expr.asVariable? = none)
    (notLet : expr.isLet = false) (length : operands.length = expr.children.length) :
    known.boundWithin locals (expr.withChildren operands) =
      known.narrowBound (expr.withChildren operands)
        ((Bound.ofNode? expr (operands.map (known.boundWithin locals))).getD (.ofType expr.dtype)) := by
  rw [boundWithin_node ((asVariable?_withChildren expr operands).trans notVariable)
    ((isLet_withChildren expr operands).trans notLet), nodeBound?, ofNode?_withChildren,
    children_withChildren length, dtype_withChildren]

/-! ### Two renamings -/

/-- Two renamings of the expression have the same bound inside bindings. -/
def BoundsAlike (known : Knowledge) (expr : Expr) : Prop :=
  ∀ {image image' : Variable → Variable} {locals locals' : Table Bound} {renamed renamed' : Expr},
    Renamed image expr renamed → Renamed image' expr renamed' → known.Apart renamed →
    known.Apart renamed' →
    (∀ name ∈ expr.freeOccurrences, known.LooksAlike locals locals' (image name) (image' name)) →
    known.boundWithin locals renamed = known.boundWithin locals' renamed'

theorem boundsAlike_var (plain : known.RecordsPlain) (dtype : DataType) (name : Variable) :
    known.BoundsAlike (.var dtype name) := by
  intro image image' locals locals' renamed renamed' left right _ _ alike
  have recorded := recordedBounds_renamed plain left right alike
  cases left
  cases right
  rw [boundWithin_var, boundWithin_var, narrowBound_congr recorded]
  rcases alike name (List.mem_singleton_self name) with
    ⟨same, free, free'⟩ | ⟨bound, found, found', -⟩
  · rw [free, free', same]
  · rw [found, found']
    rfl

theorem boundsAlike_letIn (plain : known.RecordsPlain) {dtype : DataType} {name : Variable}
    {value body : Expr} (ofValue : known.BoundsAlike value) (ofBody : known.BoundsAlike body) :
    known.BoundsAlike (.letIn dtype name value body) := by
  intro image image' locals locals' renamed renamed' left right apart apart' alike
  have recorded := recordedBounds_renamed plain left right alike
  rw [freeOccurrences] at alike
  cases left with | @letIn _ _ _ bound _ value₁ _ _ _ _ fresh leftValue leftBody =>
  cases right with | @letIn _ _ _ bound' _ _ _ _ _ _ fresh' rightValue rightBody =>
  have unknown : bound.name ∉ known.names := apart bound (by simp [binders_letIn])
  have unknown' : bound'.name ∉ known.names := apart' bound' (by simp [binders_letIn])
  have values := ofValue leftValue rightValue (apart.child (by simp [children]))
    (apart'.child (by simp [children])) fun other free => alike other (List.mem_append_left _ free)
  have bodies := ofBody leftBody rightBody (apart.child (by simp [children]))
    (apart'.child (by simp [children]))
    fun other free => LooksAlike.insert (known.boundWithin locals value₁) unknown unknown'
      (fun different => alike other (List.mem_append_right _
        (List.mem_filter.mpr ⟨free, decide_eq_true different⟩)))
      (fresh other free) (fresh' other free)
  rw [boundWithin_letIn, boundWithin_letIn, computedBound, computedBound, narrowBound_congr recorded,
    bodies, values]
  rfl

theorem boundsAlike_node (plain : known.RecordsPlain) (notVariable : expr.asVariable? = none)
    (notLet : expr.isLet = false) (ofOperands : ∀ child ∈ expr.children, known.BoundsAlike child) :
    known.BoundsAlike expr := by
  intro image image' locals locals' renamed renamed' left right apart apart' alike
  have recorded := recordedBounds_renamed plain left right alike
  obtain ⟨operands, leftOperands, rfl⟩ := left.exists_operands notVariable notLet
  obtain ⟨operands', rightOperands, rfl⟩ := right.exists_operands notVariable notLet
  have length := leftOperands.length_eq.symm
  have length' := rightOperands.length_eq.symm
  have bounds : operands.map (known.boundWithin locals) =
      operands'.map (known.boundWithin locals') := by
    refine map_eq_of_renamed leftOperands rightOperands ?_
    intro child isChild renamed isRenamed renamed' isRenamed' left right
    rw [← children_withChildren length] at isRenamed
    rw [← children_withChildren length'] at isRenamed'
    exact ofOperands child isChild left right (apart.child isRenamed) (apart'.child isRenamed')
      fun name free => alike name (mem_freeOccurrences_of_child notLet isChild free)
  rw [boundWithin_withChildren notVariable notLet length,
    boundWithin_withChildren notVariable notLet length', bounds, narrowBound_congr recorded]

/-- The bound that is inferred inside bindings is the same for two renamings of an expression. -/
theorem boundsAlike (plain : known.RecordsPlain) (expr : Expr) : known.BoundsAlike expr := by
  induction expr using childrenInduction with
  | step expr inductionHypothesis =>
    cases expr.shape with
    | var dtype name => exact boundsAlike_var plain dtype name
    | letIn dtype name value body =>
      exact boundsAlike_letIn plain (inductionHypothesis value (by simp [children]))
        (inductionHypothesis body (by simp [children]))
    | node notVariable notLet => exact boundsAlike_node plain notVariable notLet inductionHypothesis

/-! ### Scopes -/

theorem names_subset_enterScope (known : Knowledge) (token : Nat) (facts : List Fact) :
    known.names ⊆ (known.enterScope token facts).names := by
  refine List.map_subset _ (List.append_subset.mpr ⟨List.subset_append_left _ _, ?_⟩)
  refine fun name member => List.mem_append_right _ ?_
  obtain ⟨target, isTarget, free⟩ := List.mem_flatMap.mp member
  refine List.mem_flatMap.mpr ⟨target, ?_, free⟩
  rcases List.mem_append.mp isTarget with before | isFact
  · exact List.mem_append_left _ before
  · exact List.mem_append_right _ (List.map_subset _ (List.subset_append_left _ _) isFact)

/-- The bound that is inferred is the same when more names are kept apart. -/
theorem inferBound_eq_boundWithin {inner : Knowledge} (typed : expr.WellTyped)
    (grows : known.names ⊆ inner.names) (plain : expr.hasLet = true → known.RecordsPlain) :
    known.inferBound expr = known.boundWithin [] (inner.isolate expr) := by
  by_cases hasLet : expr.hasLet = true
  · exact boundsAlike (plain hasLet) expr (known.isolate_renamed typed.namesTyped)
      (inner.isolate_renamed typed.namesTyped) (known.isolate_apart expr)
      (fun bound member isKnown => inner.isolate_apart expr bound member (grows isKnown))
      fun name _ => .inl ⟨rfl, rfl, rfl⟩
  · have noLet := Bool.eq_false_iff.mpr hasLet
    rw [inferBound, known.isolate_of_hasLet noLet, inner.isolate_of_hasLet noLet]

end Knowledge

end IndexAlgebra
