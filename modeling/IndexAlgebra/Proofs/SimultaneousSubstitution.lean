/-
This file proves what the replacement of variables means. The variables are replaced all at once: the
new expression has the value of the old one where every variable has the value of what replaces it.
No variable is captured: what occurs free in the new expression is what is left of the old one and
what the replacements bring. Both are carried by one relation between an expression and the result of
a walk, in which every free variable has an expression as its image. Bindings are the only nodes where
the images of a body differ from those outside, and one law for them covers the renamed binding too.
-/
import IndexAlgebra.Proofs.Renaming
import IndexAlgebra.Proofs.Substitution

namespace IndexAlgebra

namespace Expr

/-! ### Nodes that introduce no variable -/

theorem isLet_withChildren (expr : Expr) (operands : List Expr) :
    (expr.withChildren operands).isLet = expr.isLet := by
  unfold withChildren
  split <;> rfl

theorem asVariable?_withChildren (expr : Expr) (operands : List Expr) :
    (expr.withChildren operands).asVariable? = expr.asVariable? := by
  unfold withChildren
  split <;> rfl

/-- What occurs free in a node that is no binding and no variable occurs free in an operand. -/
theorem mem_freeOccurrences_iff_child {expr : Expr} (notLet : expr.isLet = false)
    (notVariable : expr.asVariable? = none) {name : Variable} :
    name ∈ expr.freeOccurrences ↔ ∃ child ∈ expr.children, name ∈ child.freeOccurrences := by
  constructor
  · intro occurs
    rcases exists_child_of_mem_freeOccurrences occurs with ⟨dtype, rfl⟩ | inside
    · cases notVariable
    · exact inside
  · rintro ⟨child, isChild, occurs⟩
    exact mem_freeOccurrences_of_child notLet isChild occurs

/-- The value of a node that is no binding and no variable depends on the values and the types of
its operands alone. -/
theorem evaluate_withChildren {check : RangeCheck} {env env' : Environment} {expr : Expr}
    {operands : List Expr} (notLet : expr.isLet = false) (notVariable : expr.asVariable? = none)
    (values : operands.map (evaluate check env') = expr.children.map (evaluate check env))
    (types : operands.map dtype = expr.children.map dtype) :
    evaluate check env' (expr.withChildren operands) = evaluate check env expr := by
  cases expr with
  | var => cases notVariable
  | letIn => cases notLet
  | intConst | floatConst | boolConst =>
    rw [children, List.map_nil, List.map_eq_nil_iff] at types
    subst types
    rw [withChildren, evaluate, evaluate] <;> simp
  | cast dtype value | not dtype value | broadcast dtype value lanes =>
    obtain ⟨value', rfl⟩ : ∃ value', operands = [value'] := by
      simpa [children, List.length_eq_one_iff] using congrArg List.length types
    simp only [children, List.map_cons, List.map_nil, List.cons.injEq, and_true] at values
    rw [withChildren, evaluate, evaluate, values]
  | binary dtype op lhs rhs =>
    obtain ⟨lhs', rhs', rfl⟩ : ∃ lhs' rhs', operands = [lhs', rhs'] := by
      simpa [children, List.length_eq_two] using congrArg List.length types
    simp only [children, List.map_cons, List.map_nil, List.cons.injEq, and_true] at values types
    rw [withChildren, evaluate, evaluate, values.1, values.2, types.1]
  | ramp dtype base stride lanes =>
    obtain ⟨base', stride', rfl⟩ : ∃ base' stride', operands = [base', stride'] := by
      simpa [children, List.length_eq_two] using congrArg List.length types
    simp only [children, List.map_cons, List.map_nil, List.cons.injEq, and_true] at values
    rw [withChildren, evaluate, evaluate, values.1, values.2]
  | select dtype cond onTrue onFalse =>
    obtain ⟨cond', onTrue', onFalse', rfl⟩ : ∃ cond' onTrue' onFalse',
        operands = [cond', onTrue', onFalse'] := by
      simpa [children, List.length_eq_three] using congrArg List.length types
    simp only [children, List.map_cons, List.map_nil, List.cons.injEq, and_true] at values
    rw [withChildren, evaluate, evaluate, values.1, values.2.1, values.2.2]
  | shuffle dtype vectors indices =>
    rw [children] at values types
    rw [withChildren, evaluate, evaluate, evaluateLanes_congr values types]
  | call dtype op args => exact evaluate_call_congr dtype op values

/-! ### Variables with their types -/

theorem namesTyped_iff {expr : Expr} :
    expr.NamesTyped ↔ (∀ dtype name, expr = var dtype name → dtype = name.dtype) ∧
      ∀ child ∈ expr.children, child.NamesTyped := by
  constructor
  · refine fun typed => ⟨?_, fun child isChild => typed.child isChild⟩
    rintro dtype name rfl
    exact typed dtype name (self_mem_postOrder _)
  · rintro ⟨own, operands⟩ dtype name member
    rcases mem_postOrder.mp member with isNode | ⟨child, isChild, inside⟩
    · exact own dtype name isNode.symm
    · exact operands child isChild dtype name inside

theorem namesTyped_expr (name : Variable) : name.expr.NamesTyped := by
  intro dtype other member
  obtain ⟨rfl, rfl⟩ : dtype = name.dtype ∧ other = name := by
    simpa [Variable.expr, postOrder] using member
  rfl

/-- A node that introduces no variable is typed as its operands are. -/
theorem namesTyped_withChildren {expr : Expr} {operands : List Expr}
    (length : operands.length = expr.children.length) (notVariable : expr.asVariable? = none)
    (typed : ∀ operand ∈ operands, operand.NamesTyped) :
    (expr.withChildren operands).NamesTyped := by
  refine namesTyped_iff.mpr ⟨fun dtype name isVariable => ?_, ?_⟩
  · have same := asVariable?_withChildren expr operands
    rw [isVariable, notVariable] at same
    cases same
  · rwa [children_withChildren length]

/-- The variables of an expression keep their types where each is replaced by an expression that
keeps them. -/
theorem namesTyped_substituteWithin {replacement : Replacement}
    (values : ∀ name value, replacement name = some value → value.NamesTyped) (fuel : Nat)
    (hidden : List Variable) {expr : Expr} (typed : expr.NamesTyped) :
    (substituteWithin fuel replacement hidden expr).NamesTyped := by
  induction fuel generalizing replacement hidden expr with
  | zero => exact typed
  | succ fuel inductionHypothesis =>
    cases expr with
    | var dtype name =>
      rw [substituteWithin]
      split
      · exact typed
      · cases found : replacement name with
        | none => exact typed
        | some value => exact values name value found
    | letIn dtype name value body =>
      have isValue : value.NamesTyped := typed.child List.mem_cons_self
      have isBody : body.NamesTyped := typed.child (List.mem_cons_of_mem _ List.mem_cons_self)
      have value' := inductionHypothesis values hidden isValue
      have binding : ∀ {name' : Variable} {body' : Expr}, body'.NamesTyped →
          (letIn dtype name' (substituteWithin fuel replacement hidden value) body').NamesTyped := by
        intro name' body' inner
        refine namesTyped_iff.mpr ⟨fun _ _ isVariable => (by cases isVariable), ?_⟩
        simpa [children] using And.intro value' inner
      rcases substituteWithin_letIn fuel replacement hidden dtype name value body with
        ⟨-, walked⟩ | ⟨fresh, -, -, walked⟩
      · rw [walked]
        exact binding (inductionHypothesis values _ isBody)
      · rw [walked]
        refine binding (inductionHypothesis values _ (inductionHypothesis ?_ _ isBody))
        intro other renamed replaced
        obtain ⟨-, equal⟩ := Option.ite_none_right_eq_some.mp replaced
        rw [← Option.some.inj equal]
        exact namesTyped_expr fresh
    | _ =>
      rw [substituteWithin_of_not_isLet fuel replacement hidden rfl rfl]
      refine namesTyped_withChildren (List.length_map _) rfl ?_
      intro operand member
      obtain ⟨child, isChild, rfl⟩ := List.mem_map.mp member
      exact inductionHypothesis values hidden (typed.child isChild)

/-! ### Images of the free variables -/

/-- The expression that stands for a variable: itself if it is hidden or has no replacement. -/
def Replacement.image (replacement : Replacement) (hidden : List Variable) (name : Variable) : Expr :=
  if hidden.contains name then name.expr else (replacement name).getD name.expr

/-- Every replacement has the type of its variable. -/
def Replacement.Typed (replacement : Replacement) : Prop :=
  ∀ name value, replacement name = some value → value.dtype = name.dtype

/-- The environment that gives every variable the value of its image. -/
def valuesOf (check : RangeCheck) (env : Environment) (image : Variable → Expr) : Environment :=
  fun name => evaluate check env (image name)

/-- The result is the expression with its image in the place of each free variable, as far as the
type, the free variables and the value tell. -/
structure Substitutes (image : Variable → Expr) (expr result : Expr) : Prop where
  dtype_eq : result.dtype = expr.dtype
  mem_freeOccurrences : ∀ name, name ∈ result.freeOccurrences ↔
    ∃ free ∈ expr.freeOccurrences, name ∈ (image free).freeOccurrences
  evaluate_eq : ∀ check env, evaluate check env result = evaluate check (valuesOf check env image) expr

@[simp]
theorem evaluate_expr (check : RangeCheck) (env : Environment) (name : Variable) :
    evaluate check env name.expr = env name := by
  rw [Variable.expr, evaluate]

@[simp]
theorem freeOccurrences_expr (name : Variable) : name.expr.freeOccurrences = [name] := rfl

theorem Replacement.image_of_hidden (replacement : Replacement) {hidden : List Variable}
    {name : Variable} (isHidden : name ∈ hidden) : replacement.image hidden name = name.expr := by
  simp [Replacement.image, isHidden]

/-- Another variable that is hidden does not change what stands for a variable. -/
theorem Replacement.image_cons_of_ne (replacement : Replacement) (hidden : List Variable)
    {name other : Variable} (different : other ≠ name) :
    replacement.image (name :: hidden) other = replacement.image hidden other := by
  simp [Replacement.image, different]

/-- What stands for a free variable of the body of a binding is the variable itself, or it arrives
there from outside. -/
theorem Replacement.image_cases (replacement : Replacement) (hidden : List Variable)
    {name other : Variable} {body : Expr} (occurs : other ∈ body.freeOccurrences)
    (different : other ≠ name) :
    replacement.image hidden other = other.expr ∨
      replacement.image hidden other ∈ incoming replacement hidden name body := by
  by_cases isHidden : other ∈ hidden
  · exact .inl (replacement.image_of_hidden isHidden)
  · cases found : replacement other with
    | none => exact .inl (by simp [Replacement.image, isHidden, found])
    | some value =>
      have image : replacement.image hidden other = value := by
        simp [Replacement.image, isHidden, found]
      rw [image]
      refine .inr (List.mem_filterMap.mpr ⟨other, List.mem_filter.mpr ⟨?_, ?_⟩, found⟩)
      · exact List.mem_eraseDups.mpr occurs
      · simp [different, isHidden]

/-- A variable that neither is another one nor is used by what arrives in the body does not occur
in what stands for the other one there. -/
theorem Replacement.not_mem_image (replacement : Replacement) {hidden : List Variable}
    {name other bound : Variable} {body : Expr} (occurs : other ∈ body.freeOccurrences)
    (different : other ≠ name) (apart : other ≠ bound)
    (unused : ∀ arriving ∈ incoming replacement hidden name body, arriving.uses bound = false) :
    bound ∉ (replacement.image hidden other).freeOccurrences := by
  rcases replacement.image_cases hidden occurs different with isVariable | arrives
  · rw [isVariable, freeOccurrences_expr, List.mem_singleton]
    exact Ne.symm apart
  · exact fun occurs => not_uses_iff.mp (unused _ arrives) (mem_mentions_of_mem_freeOccurrences occurs)

namespace Substitutes

variable {image image' : Variable → Expr} {expr middle result : Expr}

/-- Only the images of free variables matter. -/
theorem congr (substitutes : Substitutes image expr result)
    (same : ∀ name ∈ expr.freeOccurrences, image' name = image name) :
    Substitutes image' expr result := by
  refine ⟨substitutes.dtype_eq, fun name => ?_, fun check env => ?_⟩
  · rw [substitutes.mem_freeOccurrences]
    exact exists_congr fun free => and_congr_right fun occurs => by rw [same free occurs]
  · rw [substitutes.evaluate_eq]
    refine (evaluate_congr fun name occurs => ?_).symm
    rw [valuesOf, valuesOf, same name occurs]

/-- Variables in the place of variables may have images in their turn. -/
theorem trans {rename : Variable → Variable}
    (inner : Substitutes (fun name => (rename name).expr) expr middle)
    (outer : Substitutes image middle result) :
    Substitutes (fun name => image (rename name)) expr result := by
  refine ⟨outer.dtype_eq.trans inner.dtype_eq, fun name => ?_, fun check env => ?_⟩
  · rw [outer.mem_freeOccurrences]
    simp only [inner.mem_freeOccurrences, freeOccurrences_expr, List.mem_singleton]
    constructor
    · rintro ⟨_, ⟨free, occurs, rfl⟩, inside⟩
      exact ⟨free, occurs, inside⟩
    · rintro ⟨free, occurs, inside⟩
      exact ⟨rename free, ⟨free, occurs, rfl⟩, inside⟩
  · rw [outer.evaluate_eq, inner.evaluate_eq]
    refine congrArg (fun env => evaluate check env expr) (funext fun name => ?_)
    exact evaluate_expr check _ (rename name)

/-- A node that introduces no variable has the same images in each operand. -/
theorem mapChildren {walk : Expr → Expr} (notLet : expr.isLet = false)
    (notVariable : expr.asVariable? = none)
    (operands : ∀ child ∈ expr.children, Substitutes image child (walk child)) :
    Substitutes image expr (expr.mapChildren walk) := by
  refine ⟨dtype_withChildren expr _, fun name => ?_, fun check env => ?_⟩
  · rw [Expr.mapChildren, mem_freeOccurrences_iff_child (by rwa [isLet_withChildren])
      (by rwa [asVariable?_withChildren]), children_withChildren (List.length_map _)]
    simp only [mem_freeOccurrences_iff_child notLet notVariable, List.mem_map,
      exists_exists_and_eq_and]
    constructor
    · rintro ⟨child, isChild, occurs⟩
      obtain ⟨free, isFree, inside⟩ := ((operands child isChild).mem_freeOccurrences name).mp occurs
      exact ⟨free, ⟨child, isChild, isFree⟩, inside⟩
    · rintro ⟨free, ⟨child, isChild, isFree⟩, inside⟩
      exact ⟨child, isChild, ((operands child isChild).mem_freeOccurrences name).mpr
        ⟨free, isFree, inside⟩⟩
  · refine evaluate_withChildren notLet notVariable ?_ ?_ <;> rw [List.map_map]
    · exact List.map_congr_left fun child isChild => (operands child isChild).evaluate_eq check env
    · exact List.map_congr_left fun child isChild => (operands child isChild).dtype_eq

/-- In the body of a binding, the bound variable is the image of the one that it was, and the images
of the others are those outside, where the bound variable does not occur. -/
theorem letIn {inner : Variable → Expr} {dtype : DataType} {name bound : Variable}
    {value value' body body' : Expr} (outside : Substitutes image value value')
    (inside : Substitutes inner body body') (self : inner name = bound.expr)
    (others : ∀ other ∈ body.freeOccurrences, other ≠ name →
      inner other = image other ∧ bound ∉ (image other).freeOccurrences) :
    Substitutes image (letIn dtype name value body) (letIn dtype bound value' body') := by
  refine ⟨rfl, fun free => ?_, fun check env => ?_⟩
  · simp only [freeOccurrences, List.mem_append, List.mem_filter, decide_eq_true_eq,
      outside.mem_freeOccurrences, inside.mem_freeOccurrences, or_and_right, exists_or]
    refine or_congr_right ⟨?_, ?_⟩
    · rintro ⟨⟨other, occurs, within⟩, different⟩
      by_cases same : other = name
      · rw [same, self, freeOccurrences_expr, List.mem_singleton] at within
        exact absurd within different
      · rw [(others other occurs same).1] at within
        exact ⟨other, ⟨occurs, same⟩, within⟩
    · rintro ⟨other, ⟨occurs, same⟩, within⟩
      obtain ⟨image', apart⟩ := others other occurs same
      rw [← image'] at within apart
      exact ⟨⟨other, occurs, within⟩, fun equal => apart (equal ▸ within)⟩
  · rw [evaluate, evaluate, outside.evaluate_eq]
    congr 1
    funext first
    rw [inside.evaluate_eq]
    refine evaluate_congr fun other occurs => ?_
    by_cases same : other = name
    · rw [same, valuesOf, self, evaluate_expr, Environment.set_self, Environment.set_self]
    · obtain ⟨image', apart⟩ := others other occurs same
      rw [valuesOf, image', Environment.set_of_ne _ _ same]
      refine evaluate_congr fun free within => ?_
      exact Environment.set_of_ne _ _ fun equal => apart (equal ▸ within)

end Substitutes

/-! ### The walk -/

/-- A renamed variable is the image of the one that it was, and every other one of itself. -/
theorem Replacement.image_single (name renamed : Variable) :
    (Replacement.single name renamed.expr).image [] =
      fun other => (Function.update id name renamed other).expr := by
  funext other
  by_cases same : other = name
  · simp [Replacement.image, Replacement.single, same]
  · simp [Replacement.image, Replacement.single, same]

/-- The walk puts the image of each free variable in its place if it may go as deep as the
expression does. -/
theorem substituteWithin_substitutes {replacement : Replacement} (kept : replacement.Typed)
    (fuel : Nat) (hidden : List Variable) {expr : Expr} (typed : expr.NamesTyped)
    (enough : expr.nodeCount ≤ fuel) :
    Substitutes (replacement.image hidden) expr (substituteWithin fuel replacement hidden expr) := by
  induction fuel generalizing replacement hidden expr with
  | zero => exact absurd enough (Nat.not_le.mpr expr.nodeCount_pos)
  | succ fuel inductionHypothesis =>
    have deep : ∀ child ∈ expr.children, child.nodeCount ≤ fuel := fun child isChild =>
      Nat.le_of_lt_succ ((nodeCount_child_lt isChild).trans_le enough)
    cases expr with
    | var dtype name =>
      obtain rfl : dtype = name.dtype := typed dtype name (self_mem_postOrder _)
      have walked : substituteWithin (fuel + 1) replacement hidden (var name.dtype name) =
          replacement.image hidden name := rfl
      rw [walked]
      refine ⟨?_, fun free => by simp [freeOccurrences], fun check env => ?_⟩
      · unfold Replacement.image
        split
        · rfl
        · cases found : replacement name with
          | none => rfl
          | some value => exact kept name value found
      · rw [evaluate, valuesOf]
    | letIn dtype name value body =>
      have isValue : value ∈ (letIn dtype name value body).children := List.mem_cons_self
      have isBody : body ∈ (letIn dtype name value body).children :=
        List.mem_cons_of_mem _ List.mem_cons_self
      have outside := inductionHypothesis kept hidden (typed.child isValue) (deep value isValue)
      rcases substituteWithin_letIn fuel replacement hidden dtype name value body with
        ⟨unused, walked⟩ | ⟨fresh, unused, sameType, walked⟩
      · rw [walked]
        refine outside.letIn
          (inductionHypothesis kept (name :: hidden) (typed.child isBody) (deep body isBody))
          (replacement.image_of_hidden List.mem_cons_self) fun other occurs different => ?_
        exact ⟨replacement.image_cons_of_ne hidden different,
          replacement.not_mem_image occurs different different unused⟩
      · rw [walked]
        have single : (Replacement.single name fresh.expr).Typed := by
          intro other value replaced
          obtain ⟨rfl, rfl⟩ : other = name ∧ fresh.expr = value := by
            simpa [Replacement.single] using replaced
          exact sameType
        have renamed := inductionHypothesis single [] (typed.child isBody) (deep body isBody)
        rw [Replacement.image_single] at renamed
        have renamedTyped : (substituteWithin fuel (.single name fresh.expr) [] body).NamesTyped := by
          refine namesTyped_substituteWithin ?_ fuel [] (typed.child isBody)
          intro other value replaced
          obtain ⟨-, equal⟩ := Option.ite_none_right_eq_some.mp replaced
          rw [← Option.some.inj equal]
          exact namesTyped_expr fresh
        have replaced := inductionHypothesis kept (fresh :: hidden) renamedTyped
          ((nodeCount_substituteWithin (single_expr_nodeCount name fresh) fuel [] body).trans_le
            (deep body isBody))
        refine outside.letIn (renamed.trans replaced) ?_ fun other occurs different => ?_
        · rw [Function.update_self]
          exact replacement.image_of_hidden List.mem_cons_self
        · have apart : other ≠ fresh := by
            rintro rfl
            exact not_uses_iff.mp (unused body List.mem_cons_self)
              (mem_mentions_of_mem_freeOccurrences occurs)
          rw [Function.update_of_ne different]
          exact ⟨replacement.image_cons_of_ne hidden apart,
            replacement.not_mem_image occurs different apart fun arriving arrives =>
              unused arriving (List.mem_cons_of_mem _ arrives)⟩
    | _ =>
      rw [substituteWithin_of_not_isLet fuel replacement hidden rfl rfl]
      exact .mapChildren rfl rfl fun child isChild =>
        inductionHypothesis kept hidden (typed.child isChild) (deep child isChild)

theorem substitute_substitutes {replacement : Replacement} (kept : replacement.Typed) {expr : Expr}
    (typed : expr.NamesTyped) :
    Substitutes (replacement.image []) expr (expr.substitute replacement) :=
  substituteWithin_substitutes kept expr.nodeCount [] typed le_rfl

/-- The environment in which every variable that is replaced has the value of its replacement, and
none if that is undefined. -/
def Replacement.environment (replacement : Replacement) (env : Environment) : Environment :=
  fun name => match replacement name with
    | some value => value.eval env
    | none => env name

/-- Replacing the variables of an expression, with expressions of their types, is simultaneous: the
result has the value of the expression where every replaced variable has the value of its
replacement. It captures nothing: the free variables of the result are those that are not replaced
and those of the replacements, and no others. -/
theorem substitute_simultaneous {expr : Expr} (typed : expr.NamesTyped) {replacement : Replacement}
    (kept : replacement.Typed) :
    (∀ env, (expr.substitute replacement).eval env = expr.eval (replacement.environment env)) ∧
      ∀ name, name ∈ (expr.substitute replacement).freeVariables ↔
        (name ∈ expr.freeVariables ∧ replacement name = none) ∨
          ∃ replaced ∈ expr.freeVariables, ∃ value, replacement replaced = some value ∧
            name ∈ value.freeVariables := by
  have substitutes := substitute_substitutes kept typed
  refine ⟨fun env => ?_, fun name => ?_⟩
  · have sameValues : valuesOf .checked env (replacement.image []) = replacement.environment env := by
      funext name
      unfold valuesOf Replacement.image Replacement.environment
      cases replacement name with
      | none => simp
      | some value => rfl
    rw [eval, eval, substitutes.evaluate_eq, sameValues]
  · simp only [freeVariables, List.mem_eraseDups, substitutes.mem_freeOccurrences]
    constructor
    · rintro ⟨free, occurs, inside⟩
      cases found : replacement free with
      | none =>
        have self : name = free := by simpa [Replacement.image, found] using inside
        exact .inl (self ▸ ⟨occurs, found⟩)
      | some value =>
        have inValue : name ∈ value.freeOccurrences := by simpa [Replacement.image, found] using inside
        exact .inr ⟨free, occurs, value, found, inValue⟩
    · rintro (⟨occurs, missing⟩ | ⟨free, occurs, value, found, inValue⟩)
      · exact ⟨name, occurs, by simp [Replacement.image, missing]⟩
      · exact ⟨free, occurs, by simpa [Replacement.image, found] using inValue⟩

/-- In `let x = y + 1 in let y = x * 2 in x + y + z` with `z` for `y` and `x - y` for `z`, the outer
`y` is replaced and the inner one is not, and the `x` and the `y` that come in are not captured. -/
theorem substitute_simultaneous_crossing :
    let x : Variable := ⟨"x", .int32, false⟩
    let y : Variable := ⟨"y", .int32, false⟩
    let z : Variable := ⟨"z", .int32, false⟩
    let expr := letIn .int32 x (binary .int32 .add y.expr (intConst .int32 1))
      (letIn .int32 y (binary .int32 .mul x.expr (intConst .int32 2))
        (binary .int32 .add (binary .int32 .add x.expr y.expr) z.expr))
    let replacement : Replacement := fun name =>
      if name = y then some z.expr
      else if name = z then some (binary .int32 .sub x.expr y.expr) else none
    let env := ((Environment.empty.set x (.int 10)).set y (.int 20)).set z (.int 3)
    (expr.substitute replacement).eval env = some (.int 2) ∧
      (∀ name, name ∈ (expr.substitute replacement).freeVariables ↔ name ∈ [x, y, z]) := by
  intro x y z expr replacement env
  have typed : expr.NamesTyped := WellTyped.namesTyped (by decide)
  have kept : replacement.Typed := by
    intro name value replaced
    by_cases isY : name = y
    · simp only [replacement, if_pos isY, Option.some.injEq] at replaced
      rw [← replaced, isY]
      rfl
    · by_cases isZ : name = z
      · simp only [replacement, if_neg isY, if_pos isZ, Option.some.injEq] at replaced
        rw [← replaced, isZ]
        rfl
      · simp [replacement, isY, isZ] at replaced
  obtain ⟨values, free⟩ := substitute_simultaneous typed kept
  have freeOf : expr.freeVariables = [y, z] := by rfl
  have ofY : replacement y = some z.expr := by rfl
  have ofZ : replacement z = some (binary .int32 .sub x.expr y.expr) := by rfl
  have replaced : ∀ name ∈ [y, z], replacement name ≠ none := by
    simp [ofY, ofZ]
  refine ⟨(values env).trans (by rfl), fun name => ?_⟩
  rw [free, freeOf, or_iff_right (fun kept => replaced name kept.1 kept.2)]
  simp [ofY, ofZ, freeVariables, freeOccurrences, or_assoc, or_comm (a := name = z)]

end Expr

end IndexAlgebra
