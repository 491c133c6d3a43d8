/-
This file proves what renaming an expression apart achieves: the result is the expression up to
bound variables, its bound variables have different names, and none of these names is reserved or
taken before. Walking the expression only ever adds the names of bound variables to those that are
taken, which is the invariant of every induction here.
-/
import IndexAlgebra.Knowledge
import IndexAlgebra.Proofs.Renaming
import IndexAlgebra.Proofs.Typing
import Mathlib.Tactic.Tauto

namespace IndexAlgebra

namespace Expr

/-! ### Bound variables -/

/-- The variable that a binding introduces. -/
def binder? : Expr → Option Variable
  | letIn _ name _ _ => some name
  | _ => none

/-- The variable of every binding, the bindings inside another before it. -/
def binders (expr : Expr) : List Variable := expr.postOrder.filterMap binder?

/-- The variables of the bindings of each expression in turn. -/
def bindersList (exprs : List Expr) : List Variable := (postOrderList exprs).filterMap binder?

/-- The walk that took the names of the bound variables: they are all different, and none of them
was reserved or taken before. -/
structure Takes (reserved taken : List String) (bound : List Variable) (after : List String) :
    Prop where
  mem_after : ∀ name, name ∈ after ↔ name ∈ bound.map Variable.name ∨ name ∈ taken
  distinct : (bound.map Variable.name).Nodup
  apart : ∀ name ∈ bound, name.name ∉ taken ∧ name.name ∉ reserved

namespace Takes

variable {reserved taken middle after : List String} {first second : List Variable}

theorem refl (reserved taken : List String) : Takes reserved taken [] taken :=
  ⟨fun name => by simp, List.nodup_nil, fun _ member => absurd member List.not_mem_nil⟩

/-- What was taken before is taken after. -/
theorem mono (takes : Takes reserved taken first after) : taken ⊆ after :=
  fun name member => (takes.mem_after name).mpr (.inr member)

theorem trans (left : Takes reserved taken first middle)
    (right : Takes reserved middle second after) : Takes reserved taken (first ++ second) after := by
  refine ⟨fun name => ?_, ?_, ?_⟩
  · rw [right.mem_after, left.mem_after, List.map_append, List.mem_append]
    tauto
  · rw [List.map_append]
    refine List.nodup_append.mpr ⟨left.distinct, right.distinct, ?_⟩
    intro name inFirst other inSecond equal
    obtain ⟨bound, member, rfl⟩ := List.mem_map.mp inSecond
    exact (right.apart bound member).1 ((left.mem_after _).mpr (.inl (equal ▸ inFirst)))
  · intro bound member
    rcases List.mem_append.mp member with inFirst | inSecond
    · exact left.apart bound inFirst
    · exact ⟨fun inTaken => (right.apart bound inSecond).1 (left.mono inTaken),
        (right.apart bound inSecond).2⟩

/-- A single name is taken. -/
theorem single {bound : Variable} (free : bound.name ∉ taken) (unreserved : bound.name ∉ reserved) :
    Takes reserved taken [bound] (bound.name :: taken) :=
  ⟨fun name => by simp, by simp, by simp [free, unreserved]⟩

/-- The order in which the names were taken does not matter. -/
theorem perm (takes : Takes reserved taken first after) (permuted : first.Perm second) :
    Takes reserved taken second after := by
  refine ⟨fun name => ?_, ?_, fun bound member => takes.apart bound (permuted.mem_iff.mpr member)⟩
  · rw [takes.mem_after, (permuted.map Variable.name).mem_iff]
  · exact (permuted.map Variable.name).nodup_iff.mp takes.distinct

end Takes

/-- The variable of a renamed binding is neither taken nor reserved. -/
theorem apartFrom_free (reserved taken : List String) (name : Variable) :
    (apartFrom reserved taken name).name ∉ taken ∧
      (apartFrom reserved taken name).name ∉ reserved := by
  unfold apartFrom
  split
  next =>
    have free := name.name_fresh_not_mem (taken ++ reserved)
    simpa [not_or] using free
  next free => simpa [not_or] using free

theorem apartFrom_dtype (reserved taken : List String) (name : Variable) :
    (apartFrom reserved taken name).dtype = name.dtype := by
  unfold apartFrom
  split <;> rfl

theorem apartFrom_nonNegative (reserved taken : List String) (name : Variable) :
    (apartFrom reserved taken name).nonNegative = name.nonNegative := by
  unfold apartFrom
  split <;> rfl

mutual

/-- Renaming an expression takes the names of its bound variables. -/
theorem renameFrom_takes (reserved : List String) (renames : Renames) (taken : List String) :
    (expr : Expr) → Takes reserved taken (renameFrom reserved renames taken expr).1.binders
      (renameFrom reserved renames taken expr).2
  | var dtype name => by
    rw [renameFrom]
    split
    · split <;> exact .refl reserved taken
    · exact .refl reserved taken
  | intConst .. | floatConst .. | boolConst .. => .refl reserved taken
  | cast dtype value => by
    simpa [renameFrom, binders, postOrder, List.filterMap_cons, binder?] using
      renameFrom_takes reserved renames taken value
  | binary dtype op lhs rhs => by
    have left := renameFrom_takes reserved renames taken lhs
    have right := renameFrom_takes reserved renames (renameFrom reserved renames taken lhs).2 rhs
    simpa [renameFrom, binders, postOrder, List.filterMap_cons, binder?] using left.trans right
  | not dtype value => by
    simpa [renameFrom, binders, postOrder, List.filterMap_cons, binder?] using
      renameFrom_takes reserved renames taken value
  | select dtype cond onTrue onFalse => by
    have first := renameFrom_takes reserved renames taken cond
    have second := renameFrom_takes reserved renames (renameFrom reserved renames taken cond).2 onTrue
    have third := renameFrom_takes reserved renames
      (renameFrom reserved renames (renameFrom reserved renames taken cond).2 onTrue).2 onFalse
    simpa [renameFrom, binders, postOrder, List.filterMap_cons, binder?] using (first.trans second).trans third
  | ramp dtype base stride lanes => by
    have first := renameFrom_takes reserved renames taken base
    have second := renameFrom_takes reserved renames (renameFrom reserved renames taken base).2 stride
    simpa [renameFrom, binders, postOrder, List.filterMap_cons, binder?] using first.trans second
  | broadcast dtype value lanes => by
    simpa [renameFrom, binders, postOrder, List.filterMap_cons, binder?] using
      renameFrom_takes reserved renames taken value
  | shuffle dtype vectors indices => by
    simpa [renameFrom, binders, bindersList, postOrder, List.filterMap_cons, binder?] using
      renameListFrom_takes reserved renames taken vectors
  | letIn dtype name value body => by
    have first := renameFrom_takes reserved renames taken value
    have apart := apartFrom_free reserved (renameFrom reserved renames taken value).2 name
    have second := first.trans (.single apart.1 apart.2)
    have third := second.trans (renameFrom_takes reserved
      ((name, apartFrom reserved (renameFrom reserved renames taken value).2 name) :: renames) _ body)
    refine third.perm ?_
    simp only [renameFrom, binders, postOrder, binder?, List.filterMap_append, List.filterMap_cons,
      List.filterMap_nil, List.append_assoc]
    exact List.perm_append_comm.append_left _
  | call dtype op args => by
    simpa [renameFrom, binders, bindersList, postOrder, List.filterMap_cons, binder?] using
      renameListFrom_takes reserved renames taken args

theorem renameListFrom_takes (reserved : List String) (renames : Renames) (taken : List String) :
    (exprs : List Expr) → Takes reserved taken
      (bindersList (renameListFrom reserved renames taken exprs).1)
      (renameListFrom reserved renames taken exprs).2
  | [] => .refl reserved taken
  | expr :: rest => by
    have first := renameFrom_takes reserved renames taken expr
    have others := renameListFrom_takes reserved renames
      (renameFrom reserved renames taken expr).2 rest
    simpa [renameListFrom, binders, bindersList, postOrderList] using first.trans others

end

/-! ### The renamed expression -/

/-- The variable that stands for another one after the renames. -/
def Renames.image (renames : Renames) (name : Variable) : Variable :=
  (renames.find? name).getD name

theorem Renames.image_cons (renames : Renames) (name bound : Variable) :
    Renames.image ((name, bound) :: renames) = Function.update renames.image name bound := by
  funext other
  by_cases same : other = name
  · rw [same, Function.update_self]
    simp [Renames.image, Renames.find?]
  · rw [Function.update_of_ne same]
    simp [Renames.image, Renames.find?, Ne.symm same]

/-- The renames keep the type and the mark of each variable, and the names of the variables that
stand for the given ones are taken. -/
structure Renames.Covers (renames : Renames) (taken : List String) (names : List Variable) :
    Prop where
  dtype_image : ∀ name ∈ names, (renames.image name).dtype = name.dtype
  nonNegative_image : ∀ name ∈ names, (renames.image name).nonNegative = name.nonNegative
  name_image : ∀ name ∈ names, (renames.image name).name ∈ taken

theorem Renames.Covers.mono {renames : Renames} {taken after : List String}
    {names others : List Variable} (covers : renames.Covers taken names) (fewer : others ⊆ names)
    (more : taken ⊆ after) : renames.Covers after others :=
  ⟨fun name member => covers.dtype_image name (fewer member),
    fun name member => covers.nonNegative_image name (fewer member),
    fun name member => more (covers.name_image name (fewer member))⟩

/-- The renames of the body of a binding cover its free variables. -/
theorem Renames.Covers.bind {renames : Renames} {taken : List String} {name bound : Variable}
    {names : List Variable} (covers : renames.Covers taken (names.filter (· ≠ name)))
    (dtype_eq : bound.dtype = name.dtype) (nonNegative_eq : bound.nonNegative = name.nonNegative) :
    Renames.Covers ((name, bound) :: renames) (bound.name :: taken) names := by
  have others : ∀ other ∈ names, other ≠ name → other ∈ names.filter (· ≠ name) :=
    fun other member different => List.mem_filter.mpr ⟨member, decide_eq_true different⟩
  refine ⟨fun other member => ?_, fun other member => ?_, fun other member => ?_⟩ <;>
    rw [Renames.image_cons] <;> by_cases same : other = name
  · rw [same, Function.update_self, dtype_eq]
  · rw [Function.update_of_ne same]
    exact covers.dtype_image other (others other member same)
  · rw [same, Function.update_self, nonNegative_eq]
  · rw [Function.update_of_ne same]
    exact covers.nonNegative_image other (others other member same)
  · rw [same, Function.update_self]
    exact List.mem_cons_self
  · rw [Function.update_of_ne same]
    exact List.mem_cons_of_mem _ (covers.name_image other (others other member same))

mutual

/-- Renaming gives the expression up to bound variables. -/
theorem renameFrom_renamed (reserved : List String) (renames : Renames) (taken : List String) :
    (expr : Expr) → expr.NamesTyped → renames.Covers taken expr.freeOccurrences →
      Renamed renames.image expr (renameFrom reserved renames taken expr).1
  | var dtype name, typed, covers => by
    have type : dtype = name.dtype := typed dtype name (self_mem_postOrder _)
    have imageType := covers.dtype_image name (List.mem_singleton_self name)
    have self : Renamed renames.image (var dtype name) (var dtype (renames.image name)) :=
      .var dtype name
    rw [renameFrom]
    split
    next renamed found =>
      have image : renames.image name = renamed := by rw [Renames.image, found, Option.getD_some]
      rw [image] at self imageType
      by_cases same : renamed = name
      · rw [if_pos same]
        rwa [same] at self
      · rw [if_neg same, Variable.expr, imageType, ← type]
        exact self
    next missing =>
      have image : renames.image name = name := by rw [Renames.image, missing, Option.getD_none]
      rwa [image] at self
  | intConst dtype value, _, _ => .intConst dtype value
  | floatConst dtype value, _, _ => .floatConst dtype value
  | boolConst dtype value, _, _ => .boolConst dtype value
  | cast dtype value, typed, covers =>
    .cast dtype (renameFrom_renamed reserved renames taken value
      (typed.child (List.mem_singleton_self value)) covers)
  | binary dtype op lhs rhs, typed, covers => by
    rw [freeOccurrences] at covers
    refine .binary dtype op
      (renameFrom_renamed reserved renames taken lhs (typed.child (by simp [children]))
        (covers.mono (List.subset_append_left _ _) (List.Subset.refl _)))
      (renameFrom_renamed reserved renames _ rhs (typed.child (by simp [children]))
        (covers.mono (List.subset_append_right _ _) ?_))
    exact (renameFrom_takes reserved renames taken lhs).mono
  | not dtype value, typed, covers =>
    .not dtype (renameFrom_renamed reserved renames taken value
      (typed.child (List.mem_singleton_self value)) covers)
  | select dtype cond onTrue onFalse, typed, covers => by
    rw [freeOccurrences] at covers
    have first := (renameFrom_takes reserved renames taken cond).mono
    have second := (renameFrom_takes reserved renames
      (renameFrom reserved renames taken cond).2 onTrue).mono
    refine .select dtype
      (renameFrom_renamed reserved renames taken cond (typed.child (by simp [children]))
        (covers.mono ?_ (List.Subset.refl _)))
      (renameFrom_renamed reserved renames _ onTrue (typed.child (by simp [children]))
        (covers.mono ?_ first))
      (renameFrom_renamed reserved renames _ onFalse (typed.child (by simp [children]))
        (covers.mono (List.subset_append_right _ _) (List.Subset.trans first second)))
    · exact List.Subset.trans (List.subset_append_left _ _) (List.subset_append_left _ _)
    · exact List.Subset.trans (List.subset_append_right _ _) (List.subset_append_left _ _)
  | ramp dtype base stride lanes, typed, covers => by
    rw [freeOccurrences] at covers
    refine .ramp dtype lanes
      (renameFrom_renamed reserved renames taken base (typed.child (by simp [children]))
        (covers.mono (List.subset_append_left _ _) (List.Subset.refl _)))
      (renameFrom_renamed reserved renames _ stride (typed.child (by simp [children]))
        (covers.mono (List.subset_append_right _ _) ?_))
    exact (renameFrom_takes reserved renames taken base).mono
  | broadcast dtype value lanes, typed, covers =>
    .broadcast dtype lanes (renameFrom_renamed reserved renames taken value
      (typed.child (List.mem_singleton_self value)) covers)
  | shuffle dtype vectors indices, typed, covers =>
    .shuffle dtype indices (renameListFrom_renamed reserved renames taken vectors
      (fun _ member => typed.child member) covers)
  | letIn dtype name value body, typed, covers => by
    rw [freeOccurrences] at covers
    have grown := (renameFrom_takes reserved renames taken value).mono
    have valueCovers := covers.mono (List.subset_append_left _ _) (List.Subset.refl _)
    have bodyCovers := covers.mono (List.subset_append_right _ _) grown
    have apart := apartFrom_free reserved (renameFrom reserved renames taken value).2 name
    refine .letIn dtype (apartFrom_dtype _ _ name) (apartFrom_nonNegative _ _ name) ?_
      (renameFrom_renamed reserved renames taken value (typed.child (by simp [children]))
        valueCovers) ?_
    · intro other member different equal
      have inTaken := bodyCovers.name_image other
        (List.mem_filter.mpr ⟨member, decide_eq_true different⟩)
      rw [equal] at inTaken
      exact apart.1 inTaken
    · rw [← Renames.image_cons]
      exact renameFrom_renamed reserved _ _ body (typed.child (by simp [children]))
        (bodyCovers.bind (apartFrom_dtype _ _ name) (apartFrom_nonNegative _ _ name))
  | call dtype op args, typed, covers =>
    .call dtype op (renameListFrom_renamed reserved renames taken args
      (fun _ member => typed.child member) covers)

theorem renameListFrom_renamed (reserved : List String) (renames : Renames) (taken : List String) :
    (exprs : List Expr) → (∀ expr ∈ exprs, expr.NamesTyped) →
      renames.Covers taken (freeOccurrencesList exprs) →
      RenamedList renames.image exprs (renameListFrom reserved renames taken exprs).1
  | [], _, _ => .nil
  | expr :: rest, typed, covers => by
    rw [freeOccurrencesList] at covers
    refine .cons
      (renameFrom_renamed reserved renames taken expr (typed expr List.mem_cons_self)
        (covers.mono (List.subset_append_left _ _) (List.Subset.refl _)))
      (renameListFrom_renamed reserved renames _ rest
        (fun other member => typed other (List.mem_cons_of_mem _ member))
        (covers.mono (List.subset_append_right _ _) ?_))
    exact (renameFrom_takes reserved renames taken expr).mono

end

/-! ### Renaming apart -/

theorem binders_eq_nil {expr : Expr} (noLet : expr.hasLet = false) : expr.binders = [] := by
  rw [binders, List.filterMap_eq_nil_iff]
  intro node member
  have notLet := List.any_eq_false.mp noLet node member
  cases node <;> simp_all [isLet, binder?]

/-- Renaming an expression apart gives the expression up to bound variables. -/
theorem renameLets_renamed {expr : Expr} (typed : expr.NamesTyped) (reserved : List String) :
    Renamed id expr (expr.renameLets reserved) := by
  unfold renameLets
  split
  · have image : Renames.image [] = id := rfl
    rw [← image]
    refine renameFrom_renamed reserved [] _ expr typed ⟨fun _ _ => rfl, fun _ _ => rfl, ?_⟩
    intro name member
    exact List.mem_map_of_mem (List.mem_eraseDups.mpr member)
  · exact .refl expr fun _ _ => rfl

/-- The bound variables of an expression that is renamed apart have names of their own, which
are neither reserved nor those of free variables. -/
theorem renameLets_apart (expr : Expr) (reserved : List String) :
    ((expr.renameLets reserved).binders.map Variable.name).Nodup ∧
      ∀ bound ∈ (expr.renameLets reserved).binders,
        bound.name ∉ expr.freeOccurrences.map Variable.name ∧ bound.name ∉ reserved := by
  unfold renameLets
  split
  · have takes := renameFrom_takes reserved [] (expr.freeVariables.map Variable.name) expr
    refine ⟨takes.distinct, fun bound member => ⟨fun isFree => ?_, (takes.apart bound member).2⟩⟩
    obtain ⟨name, occurs, equal⟩ := List.mem_map.mp isFree
    exact (takes.apart bound member).1
      (List.mem_map.mpr ⟨name, List.mem_eraseDups.mpr occurs, equal⟩)
  next noLet =>
    rw [binders_eq_nil (by simpa using noLet)]
    exact ⟨List.nodup_nil, fun _ member => absurd member List.not_mem_nil⟩

end Expr

namespace Knowledge

theorem isolate_of_hasLet (known : Knowledge) {expr : Expr} (noLet : expr.hasLet = false) :
    known.isolate expr = expr := if_neg (by simp [noLet])

/-- What is known does not change the expression it is used on, up to bound variables. -/
theorem isolate_renamed (known : Knowledge) {expr : Expr} (typed : expr.NamesTyped) :
    Expr.Renamed id expr (known.isolate expr) := by
  unfold isolate
  split
  · exact Expr.renameLets_renamed typed known.names
  · exact .refl expr fun _ _ => rfl

/-- Nothing is known about the variables that are bound inside an isolated expression. -/
theorem isolate_apart (known : Knowledge) (expr : Expr) :
    ∀ bound ∈ (known.isolate expr).binders, bound.name ∉ known.names := by
  unfold isolate
  split
  · exact fun bound member => ((expr.renameLets_apart known.names).2 bound member).2
  next noLet =>
    rw [Expr.binders_eq_nil (by simpa using noLet)]
    exact fun _ member => absurd member List.not_mem_nil

end Knowledge

end IndexAlgebra
