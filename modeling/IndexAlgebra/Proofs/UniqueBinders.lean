/-
This file proves that renaming bound variables apart does no more than it has to. The renamed
expression has the value and the free variables of the original, its bound variables have names of
their own, and an expression whose bound variables are apart already is left as it is. The last is an
induction over the walk: where no name is in the way, no renaming of a variable in scope changes
anything. For an analyzer it means that nothing it knows is known of a bound variable.
-/
import IndexAlgebra.Proofs.Isolation

namespace IndexAlgebra

namespace Expr

/-! ### Free variables -/

/-- What is left of the free variables in the body of a binding are the images of those that the
binding did not hide. -/
theorem filter_map_update {image : Variable → Variable} {name bound : Variable}
    {names : List Variable} (apart : ∀ other ∈ names, other ≠ name → image other ≠ bound) :
    (names.map (Function.update image name bound)).filter (· ≠ bound) =
      (names.filter (· ≠ name)).map image := by
  induction names with
  | nil => rfl
  | cons first rest inductionHypothesis =>
    have others := inductionHypothesis fun other member =>
      apart other (List.mem_cons_of_mem _ member)
    by_cases same : first = name
    · rw [List.map_cons, List.filter_cons_of_neg (by simp [same]), others,
        List.filter_cons_of_neg (by simp [same])]
    · have different := apart first List.mem_cons_self same
      rw [List.map_cons, Function.update_of_ne same, List.filter_cons_of_pos (by simp [different]),
        others, List.filter_cons_of_pos (by simp [same]), List.map_cons]

mutual

/-- The free variables of a renamed expression are the images of those of the original, in order. -/
theorem Renamed.freeOccurrences_eq {image : Variable → Variable} :
    {expr renamed : Expr} → Renamed image expr renamed →
      renamed.freeOccurrences = expr.freeOccurrences.map image
  | _, _, .var .. | _, _, .intConst .. | _, _, .floatConst .. | _, _, .boolConst .. => rfl
  | _, _, .cast _ value | _, _, .not _ value | _, _, .broadcast _ _ value => by
    rw [freeOccurrences, freeOccurrences, value.freeOccurrences_eq]
  | _, _, .binary _ _ left right | _, _, .ramp _ _ left right => by
    rw [freeOccurrences, freeOccurrences, left.freeOccurrences_eq, right.freeOccurrences_eq,
      List.map_append]
  | _, _, .select _ cond onTrue onFalse => by
    rw [freeOccurrences, freeOccurrences, cond.freeOccurrences_eq, onTrue.freeOccurrences_eq,
      onFalse.freeOccurrences_eq, List.map_append, List.map_append]
  | _, _, .shuffle _ _ operands | _, _, .call _ _ operands => by
    rw [freeOccurrences, freeOccurrences, operands.freeOccurrences_eq]
  | _, _, .letIn _ _ _ apart value body => by
    rw [freeOccurrences, freeOccurrences, value.freeOccurrences_eq, body.freeOccurrences_eq,
      List.map_append, filter_map_update apart]

theorem RenamedList.freeOccurrences_eq {image : Variable → Variable} :
    {exprs renamed : List Expr} → RenamedList image exprs renamed →
      freeOccurrencesList renamed = (freeOccurrencesList exprs).map image
  | _, _, .nil => rfl
  | _, _, .cons first others => by
    rw [freeOccurrencesList, freeOccurrencesList, first.freeOccurrences_eq,
      others.freeOccurrences_eq, List.map_append]

end

/-! ### Names that are not in the way -/

/-- The bound variables have names of their own, none of which is reserved or taken. -/
structure Untaken (reserved taken : List String) (bound : List Variable) : Prop where
  distinct : (bound.map Variable.name).Nodup
  apart : ∀ name ∈ bound, name.name ∉ taken ∧ name.name ∉ reserved

namespace Untaken

variable {reserved taken middle : List String} {first second : List Variable}

theorem left (untaken : Untaken reserved taken (first ++ second)) : Untaken reserved taken first := by
  have distinct := untaken.distinct
  rw [List.map_append] at distinct
  exact ⟨(List.nodup_append.mp distinct).1, fun name member =>
    untaken.apart name (List.mem_append_left _ member)⟩

/-- Taking the names of the first variables leaves those of the others. -/
theorem right (untaken : Untaken reserved taken (first ++ second))
    (takes : Takes reserved taken first middle) : Untaken reserved middle second := by
  have distinct := untaken.distinct
  rw [List.map_append] at distinct
  refine ⟨(List.nodup_append.mp distinct).2.1, fun name member => ?_⟩
  have apart := untaken.apart name (List.mem_append_right _ member)
  refine ⟨fun inMiddle => ?_, apart.2⟩
  rcases (takes.mem_after _).mp inMiddle with inFirst | inTaken
  · exact (List.nodup_append.mp distinct).2.2 _ inFirst _ (List.mem_map_of_mem member) rfl
  · exact apart.1 inTaken

theorem perm (untaken : Untaken reserved taken first) (permuted : first.Perm second) :
    Untaken reserved taken second :=
  ⟨(permuted.map Variable.name).nodup_iff.mp untaken.distinct,
    fun name member => untaken.apart name (permuted.mem_iff.mpr member)⟩

/-- A variable whose name is not in the way keeps it. -/
theorem apartFrom_eq {name : Variable} {others : List Variable}
    (untaken : Untaken reserved taken (name :: others)) : apartFrom reserved taken name = name := by
  have apart := untaken.apart name List.mem_cons_self
  rw [apartFrom, if_neg (by simpa [not_or] using apart)]

end Untaken

/-- The walk after which the first expression is as it was takes the names of its bound variables. -/
theorem takes_of_renameFrom_eq {reserved taken : List String} {renames : Renames} {expr : Expr}
    (unchanged : (renameFrom reserved renames taken expr).1 = expr) :
    Takes reserved taken expr.binders (renameFrom reserved renames taken expr).2 := by
  have takes := renameFrom_takes reserved renames taken expr
  rwa [unchanged] at takes

/-! ### The bound variables of a node -/

section

attribute [local simp] binders bindersList postOrder postOrderList binder? List.filterMap_cons

theorem binders_cast (dtype : DataType) (value : Expr) : (cast dtype value).binders = value.binders := by
  simp

theorem binders_binary (dtype : DataType) (op : BinaryOp) (lhs rhs : Expr) :
    (binary dtype op lhs rhs).binders = lhs.binders ++ rhs.binders := by simp

theorem binders_not (dtype : DataType) (value : Expr) : (not dtype value).binders = value.binders := by
  simp

theorem binders_select (dtype : DataType) (cond onTrue onFalse : Expr) :
    (select dtype cond onTrue onFalse).binders =
      cond.binders ++ (onTrue.binders ++ onFalse.binders) := by simp

theorem binders_ramp (dtype : DataType) (base stride : Expr) (lanes : Nat) :
    (ramp dtype base stride lanes).binders = base.binders ++ stride.binders := by simp

theorem binders_broadcast (dtype : DataType) (value : Expr) (lanes : Nat) :
    (broadcast dtype value lanes).binders = value.binders := by simp

theorem binders_shuffle (dtype : DataType) (vectors : List Expr) (indices : List Nat) :
    (shuffle dtype vectors indices).binders = bindersList vectors := by simp

theorem binders_letIn (dtype : DataType) (name : Variable) (value body : Expr) :
    (letIn dtype name value body).binders = value.binders ++ (body.binders ++ [name]) := by simp

theorem binders_call (dtype : DataType) (op : CallOp) (args : List Expr) :
    (call dtype op args).binders = bindersList args := by simp

theorem bindersList_cons (expr : Expr) (rest : List Expr) :
    bindersList (expr :: rest) = expr.binders ++ bindersList rest := by simp

end

/-! ### Expressions that are apart already -/

mutual

/-- Where no name of a bound variable is in the way and every variable in scope stands for itself,
nothing is renamed. -/
theorem renameFrom_eq_self (reserved : List String) {renames : Renames} (kept : renames.image = id)
    (taken : List String) : (expr : Expr) → Untaken reserved taken expr.binders →
      (renameFrom reserved renames taken expr).1 = expr
  | var dtype name, _ => by
    rw [renameFrom]
    split
    next renamed found =>
      have same : renamed = name := by
        have image := congrFun kept name
        rwa [Renames.image, found] at image
      rw [if_pos same]
    next => rfl
  | intConst .., _ | floatConst .., _ | boolConst .., _ => by rw [renameFrom]
  | cast dtype value, untaken => by
    rw [binders_cast] at untaken
    simp only [renameFrom, renameFrom_eq_self reserved kept taken value untaken]
  | binary dtype op lhs rhs, untaken => by
    rw [binders_binary] at untaken
    have left := renameFrom_eq_self reserved kept taken lhs untaken.left
    have right := renameFrom_eq_self reserved kept _ rhs (untaken.right (takes_of_renameFrom_eq left))
    simp only [renameFrom, left, right]
  | not dtype value, untaken => by
    rw [binders_not] at untaken
    simp only [renameFrom, renameFrom_eq_self reserved kept taken value untaken]
  | select dtype cond onTrue onFalse, untaken => by
    rw [binders_select] at untaken
    have first := renameFrom_eq_self reserved kept taken cond untaken.left
    have others := untaken.right (takes_of_renameFrom_eq first)
    have second := renameFrom_eq_self reserved kept _ onTrue others.left
    have third := renameFrom_eq_self reserved kept _ onFalse
      (others.right (takes_of_renameFrom_eq second))
    simp only [renameFrom, first, second, third]
  | ramp dtype base stride lanes, untaken => by
    rw [binders_ramp] at untaken
    have first := renameFrom_eq_self reserved kept taken base untaken.left
    have second := renameFrom_eq_self reserved kept _ stride
      (untaken.right (takes_of_renameFrom_eq first))
    simp only [renameFrom, first, second]
  | broadcast dtype value lanes, untaken => by
    rw [binders_broadcast] at untaken
    simp only [renameFrom, renameFrom_eq_self reserved kept taken value untaken]
  | shuffle dtype vectors indices, untaken => by
    rw [binders_shuffle] at untaken
    simp only [renameFrom, renameListFrom_eq_self reserved kept taken vectors untaken]
  | letIn dtype name value body, untaken => by
    -- The walk takes the names of the value, then that of the variable, then those of the body.
    have inOrder : Untaken reserved taken (value.binders ++ (name :: body.binders)) := by
      rw [binders_letIn] at untaken
      exact untaken.perm (List.perm_append_comm.append_left _)
    have first := renameFrom_eq_self reserved kept taken value inOrder.left
    have inner := inOrder.right (takes_of_renameFrom_eq first)
    have apart := inner.apart name List.mem_cons_self
    have scope : Renames.image ((name, name) :: renames) = id := by
      rw [Renames.image_cons, kept]
      exact Function.update_eq_self name id
    have taken : Takes reserved _ [name] _ := .single apart.1 apart.2
    have second := renameFrom_eq_self reserved scope _ body (inner.right taken)
    simp only [renameFrom, first, inner.apartFrom_eq, second]
  | call dtype op args, untaken => by
    rw [binders_call] at untaken
    simp only [renameFrom, renameListFrom_eq_self reserved kept taken args untaken]

theorem renameListFrom_eq_self (reserved : List String) {renames : Renames}
    (kept : renames.image = id) (taken : List String) :
    (exprs : List Expr) → Untaken reserved taken (bindersList exprs) →
      (renameListFrom reserved renames taken exprs).1 = exprs
  | [], _ => rfl
  | expr :: rest, untaken => by
    rw [bindersList_cons] at untaken
    have first := renameFrom_eq_self reserved kept taken expr untaken.left
    have others := renameListFrom_eq_self reserved kept _ rest
      (untaken.right (takes_of_renameFrom_eq first))
    simp only [renameListFrom, first, others]

end

/-- The bound variables have names of their own, which are neither reserved nor those of free
variables. -/
structure BoundApart (reserved : List String) (expr : Expr) : Prop where
  distinct : (expr.binders.map Variable.name).Nodup
  not_free : ∀ bound ∈ expr.binders, ∀ name ∈ expr.freeVariables, bound.name ≠ name.name
  not_reserved : ∀ bound ∈ expr.binders, bound.name ∉ reserved

/-- An expression whose bound variables are apart already is left as it is. -/
theorem renameLets_eq_self {reserved : List String} {expr : Expr} (apart : expr.BoundApart reserved) :
    expr.renameLets reserved = expr := by
  unfold renameLets
  split
  · refine renameFrom_eq_self reserved rfl _ expr ⟨apart.distinct, fun bound member => ⟨?_, ?_⟩⟩
    · intro isFree
      obtain ⟨name, occurs, same⟩ := List.mem_map.mp isFree
      exact apart.not_free bound member name occurs same.symm
    · exact apart.not_reserved bound member
  · rfl

theorem freeVariables_renameLets {expr : Expr} (typed : expr.NamesTyped) (reserved : List String) :
    (expr.renameLets reserved).freeVariables = expr.freeVariables := by
  rw [freeVariables, freeVariables, (renameLets_renamed typed reserved).freeOccurrences_eq, List.map_id]

theorem boundApart_renameLets {expr : Expr} (typed : expr.NamesTyped) (reserved : List String) :
    (expr.renameLets reserved).BoundApart reserved := by
  have apart := renameLets_apart expr reserved
  refine ⟨apart.1, fun bound member name isFree same => ?_, fun bound member => (apart.2 bound member).2⟩
  rw [freeVariables_renameLets typed] at isFree
  exact (apart.2 bound member).1
    (List.mem_map.mpr ⟨name, List.mem_eraseDups.mp isFree, same.symm⟩)

end Expr

namespace Knowledge

/-! ### What is known about a variable -/

/-- Something is known about the variable: a table has an entry for it, or it occurs free in what a
variable is bound to or in what a fact is about. -/
inductive Knows (known : Knowledge) (name : Variable) : Prop
  | binding (isKey : name ∈ known.bindings.keys)
  | bound (isKey : name ∈ known.bounds.keys)
  | congruence (isKey : name ∈ known.congruences.keys)
  | range (isKey : name ∈ known.ranges.keys)
  | bindingOf {subject : Variable} {binding : Binding} {expr : Expr}
    (member : (subject, binding) ∈ known.bindings) (isPart : expr ∈ binding.exprs)
    (occurs : name ∈ expr.freeVariables)
  | globalAbout {target : Expr} {bound : Bound} (member : (target, bound) ∈ known.globals)
    (occurs : name ∈ target.freeVariables)
  | factAbout {fact : Fact} (member : fact ∈ known.facts) (occurs : name ∈ fact.target.freeVariables)

/-- The name of every variable that something is known about is reserved. -/
theorem Knows.mem_names {known : Knowledge} {name : Variable} (knows : known.Knows name) :
    name.name ∈ known.names := by
  refine List.mem_map_of_mem (List.mem_append.mpr ?_)
  simp only [List.mem_append, List.mem_flatMap, List.mem_map]
  cases knows with
  | binding isKey => exact .inl (.inl (.inl (.inl isKey)))
  | bound isKey => exact .inl (.inl (.inl (.inr isKey)))
  | congruence isKey => exact .inl (.inl (.inr isKey))
  | range isKey => exact .inl (.inr isKey)
  | bindingOf member isPart occurs => exact .inr ⟨_, .inl (.inl ⟨_, member, isPart⟩), occurs⟩
  | globalAbout member occurs => exact .inr ⟨_, .inl (.inr ⟨_, member, rfl⟩), occurs⟩
  | factAbout member occurs => exact .inr ⟨_, .inr ⟨_, member, rfl⟩, occurs⟩

end Knowledge

/-- Renaming an expression apart is an alpha-conversion to bound variables with names of their own,
and leaves an expression that has such as it is. In an expression that is isolated no bound variable
has the name of a variable that something is known about. -/
theorem Expr.renameLets_alpha {expr : Expr} (typed : expr.NamesTyped) :
    (∀ reserved, (∀ env, (expr.renameLets reserved).eval env = expr.eval env) ∧
      (expr.renameLets reserved).freeVariables = expr.freeVariables ∧
      (expr.renameLets reserved).BoundApart reserved ∧
      (expr.BoundApart reserved → expr.renameLets reserved = expr)) ∧
    ∀ known : Knowledge, ∀ bound ∈ (known.isolate expr).binders, ∀ name, known.Knows name →
      bound.name ≠ name.name := by
  refine ⟨fun reserved => ⟨fun env => ?_, freeVariables_renameLets typed reserved,
    boundApart_renameLets typed reserved, renameLets_eq_self⟩, ?_⟩
  · exact (renameLets_renamed typed reserved).evaluate_eq fun _ _ => rfl
  · intro known bound member name knows same
    exact known.isolate_apart expr bound member (same ▸ knows.mem_names)

/-- In `let x = 2 in (let x = x * x in x + y)` both bound variables are renamed where `x` is reserved,
and the names that were chosen are kept if the result is renamed again. -/
theorem Expr.renameLets_alpha_shadowed :
    let x : Variable := ⟨"x", .int32, false⟩
    let y : Variable := ⟨"y", .int32, false⟩
    let expr := letIn .int32 x (intConst .int32 2)
      (letIn .int32 x (binary .int32 .mul x.expr x.expr) (binary .int32 .add x.expr y.expr))
    let renamed := expr.renameLets ["x"]
    renamed.binders.map Variable.name = ["x_2", "x_1"] ∧ renamed.BoundApart ["x"] ∧
      renamed.freeVariables = [y] ∧ renamed.renameLets ["x"] = renamed ∧
      renamed.eval (Environment.empty.set y (.int 3)) = some (.int 7) ∧
      ∀ bound ∈ (Knowledge.isolate { bounds := [(y, .everything), (x, .everything)] } expr).binders,
        bound.name ≠ "x" := by
  intro x y expr renamed
  have wellTyped : expr.WellTyped := by decide
  have typed := wellTyped.namesTyped
  obtain ⟨alpha, isolated⟩ := renameLets_alpha typed
  obtain ⟨values, free, apart, -⟩ := alpha ["x"]
  have again : renamed.NamesTyped :=
    ((renameLets_renamed typed ["x"]).wellTyped (fun _ _ => rfl) wellTyped).namesTyped
  refine ⟨by decide +kernel, apart, free.trans (by rfl), ((renameLets_alpha again).1 ["x"]).2.2.2 apart,
    (values _).trans (by rfl), fun bound member => ?_⟩
  exact isolated _ bound member x (.bound (by decide))

end IndexAlgebra
