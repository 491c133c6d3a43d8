/-
This file proves when assuming more does not loosen an inferred bound. What is recorded about a node only
grows with the assumptions, and the bound of a node is tightened with those of its operands. The one
exception is a node that has no bound of its own outside, so that the query falls back to the range of
its type, while inside it has one that reaches beyond that range.
-/
import IndexAlgebra.Proofs.Bound.Monotonicity
import IndexAlgebra.Proofs.InferredBound
import IndexAlgebra.Proofs.UniqueBinders

namespace IndexAlgebra

namespace Knowledge

open IndexAlgebra.Bound

/-! ### Recorded bounds -/

/-- Every bound that is recorded for the expression. -/
def recordedBounds (known : Knowledge) (expr : Expr) : List Bound :=
  entries known.bounds expr ++
    (known.globals.filterMap fun (target, bound) => if target = expr then some bound else none) ++
    known.facts.filterMap fun
      | .bound target bound => if target = expr then some bound else none
      | _ => none

theorem boundOf?_eq (known : Knowledge) (expr : Expr) :
    known.boundOf? expr = meet? Bound.intersect (known.recordedBounds expr) := rfl

/-- What lies within every piece lies within what remains of them. -/
theorem isSubsetOf_meet? {bound met : Bound} {pieces : List Bound}
    (isMet : meet? Bound.intersect pieces = some met) :
    bound.isSubsetOf met = true ↔ ∀ piece ∈ pieces, bound.isSubsetOf piece = true := by
  cases pieces with
  | nil => contradiction
  | cons first rest =>
    cases isMet
    induction rest generalizing first with
    | nil => simp
    | cons second rest inductionHypothesis =>
      rw [List.foldl_cons, inductionHypothesis, List.forall_mem_cons, List.forall_mem_cons,
        List.forall_mem_cons, isSubsetOf_intersect, and_assoc]

section

variable {known inner : Knowledge} {expr : Expr} {bound raw raw' : Bound}

/-- A narrowed bound is the widest one within the bound and everything that is recorded. -/
theorem isSubsetOf_narrowBound :
    bound.isSubsetOf (known.narrowBound expr raw) = true ↔
      bound.isSubsetOf raw = true ∧
        ∀ piece ∈ known.recordedBounds expr, bound.isSubsetOf piece = true := by
  unfold narrowBound
  rw [boundOf?_eq]
  cases recorded : meet? Bound.intersect (known.recordedBounds expr) with
  | none =>
    have nothing : known.recordedBounds expr = [] := by
      cases pieces : known.recordedBounds expr with
      | nil => rfl
      | cons first rest => rw [pieces] at recorded; cases recorded
    simp [nothing]
  | some met => rw [isSubsetOf_intersect, isSubsetOf_meet? recorded]

theorem narrowBound_of_nothing (nothing : known.recordedBounds expr = []) (raw : Bound) :
    known.narrowBound expr raw = raw := by
  unfold narrowBound
  rw [boundOf?_eq, nothing]
  rfl

/-- Everything that is recorded outside is recorded inside. -/
def Extends (inner known : Knowledge) : Prop :=
  ∀ expr, known.recordedBounds expr ⊆ inner.recordedBounds expr

theorem extends_enterScope (known : Knowledge) (token : Nat) (facts : List Fact) :
    (known.enterScope token facts).Extends known := by
  intro expr bound member
  unfold recordedBounds enterScope at *
  rw [List.filterMap_append, ← List.append_assoc]
  exact List.mem_append_left _ member

/-- A bound that lies within the wider one before narrowing lies within it after. -/
theorem Extends.isSubsetOf_narrowBound (grows : inner.Extends known)
    (subset : (inner.narrowBound expr raw).isSubsetOf raw' = true) :
    (inner.narrowBound expr raw).isSubsetOf (known.narrowBound expr raw') = true :=
  Knowledge.isSubsetOf_narrowBound.mpr ⟨subset, fun piece member =>
    (Knowledge.isSubsetOf_narrowBound.mp (isSubsetOf_refl _)).2 piece (grows expr member)⟩

theorem narrowBound_isSubsetOf (known : Knowledge) (expr : Expr) (raw : Bound) :
    (known.narrowBound expr raw).isSubsetOf raw = true :=
  (isSubsetOf_narrowBound.mp (isSubsetOf_refl _)).1

end

/-! ### The bound of a node -/

/-- The bound that a node has by the bounds of its operands, if they give it one. -/
def nodeBound? (known : Knowledge) (locals : Table Bound) (expr : Expr) : Option Bound :=
  ofNode? expr (expr.children.map (known.boundWithin locals))

section

attribute [local simp] boundWithin

variable {known : Knowledge} {locals : Table Bound}

theorem boundWithin_var (dtype : DataType) (name : Variable) :
    known.boundWithin locals (.var dtype name) =
      known.narrowBound (.var dtype name) ((locals.find? name).getD (.ofVariable name)) := by
  rw [boundWithin]

theorem boundWithin_letIn (dtype : DataType) (name : Variable) (value body : Expr) :
    known.boundWithin locals (.letIn dtype name value body) =
      known.computedBound (.letIn dtype name value body)
        (known.boundWithin (locals.insert name (known.boundWithin locals value)) body) := by
  rw [boundWithin]

/-- The bound of a node that is no variable and no binding follows from those of its operands. -/
theorem boundWithin_node {expr : Expr} (notVar : expr.asVariable? = none) (notLet : expr.isLet = false) :
    known.boundWithin locals expr =
      known.narrowBound expr ((known.nodeBound? locals expr).getD (ofType expr.dtype)) := by
  cases expr with
  | var | letIn => contradiction
  | intConst | boolConst | floatConst | cast =>
    rw [boundWithin]
    rfl
  | shuffle dtype vectors indices =>
    rw [boundWithin, computedBound, boundsWithin_eq_map, ofShuffle_eq, nodeBound?, ofNode?,
      Expr.dtype, getD_ofComputed?]
    rfl
  | call dtype op args =>
    rw [boundWithin, computedBound, boundsWithin_eq_map, ofCall_eq, nodeBound?, ofNode?,
      Expr.dtype, getD_ofComputed?]
    rfl
  | binary dtype op lhs rhs =>
    rw [boundWithin, computedBound, ofBinary_eq, nodeBound?, ofNode?, Expr.dtype, getD_ofComputed?]
    rfl
  | _ =>
    rw [boundWithin, computedBound, nodeBound?, ofNode?, Expr.dtype, getD_ofComputed?]
    rfl

end

/-! ### Every node -/

/-- A relation between the bounds of the bindings around a node, outside and inside, and the node holds
of the expression and of everything in it. -/
inductive Everywhere (known inner : Knowledge) (holds : Table Bound → Table Bound → Expr → Prop) :
    Table Bound → Table Bound → Expr → Prop
  | node {locals innerLocals : Table Bound} {expr : Expr} :
    expr.isLet = false → holds locals innerLocals expr →
      (∀ operand ∈ expr.children, Everywhere known inner holds locals innerLocals operand) →
      Everywhere known inner holds locals innerLocals expr
  | letIn {locals innerLocals : Table Bound} {dtype : DataType} {name : Variable} {value body : Expr} :
    holds locals innerLocals (.letIn dtype name value body) →
      Everywhere known inner holds locals innerLocals value →
      Everywhere known inner holds (locals.insert name (known.boundWithin locals value))
        (innerLocals.insert name (inner.boundWithin innerLocals value)) body →
      Everywhere known inner holds locals innerLocals (.letIn dtype name value body)

/-- The query for the node falls back to the range of its type. -/
def FallsBack (known : Knowledge) (locals : Table Bound) (expr : Expr) : Prop :=
  known.nodeBound? locals expr = none

/-- Where the query for the node falls back outside, the bound inside is in the range of the type. -/
def KeepsRange (known inner : Knowledge) (locals innerLocals : Table Bound) (expr : Expr) : Prop :=
  known.FallsBack locals expr → (inner.boundWithin innerLocals expr).fits expr.dtype = true

/-- The bound of the node inside lies within the one outside. -/
def NoLooser (known inner : Knowledge) (locals innerLocals : Table Bound) (expr : Expr) : Prop :=
  (inner.boundWithin innerLocals expr).isSubsetOf (known.boundWithin locals expr) = true

section

variable {known inner : Knowledge} {holds holds' : Table Bound → Table Bound → Expr → Prop}
  {locals innerLocals : Table Bound} {expr : Expr}

theorem Everywhere.here (everywhere : Everywhere known inner holds locals innerLocals expr) :
    holds locals innerLocals expr := by
  cases everywhere <;> assumption

theorem Everywhere.imp (step : ∀ locals innerLocals expr, holds locals innerLocals expr →
      holds' locals innerLocals expr)
    (everywhere : Everywhere known inner holds locals innerLocals expr) :
    Everywhere known inner holds' locals innerLocals expr := by
  induction everywhere with
  | node notLet here _ inductionHypothesis => exact .node notLet (step _ _ _ here) inductionHypothesis
  | letIn here _ _ ofValue ofBody => exact .letIn (step _ _ _ here) ofValue ofBody

end

end Knowledge

namespace Expr

/-- An expression is a variable, a binding or a node whose value follows from those of its operands. -/
inductive Shape : Expr → Prop
  | var (dtype : DataType) (name : Variable) : Shape (.var dtype name)
  | letIn (dtype : DataType) (name : Variable) (value body : Expr) :
    Shape (.letIn dtype name value body)
  | node {expr : Expr} : expr.asVariable? = none → expr.isLet = false → Shape expr

theorem shape (expr : Expr) : expr.Shape := by
  cases expr with
  | var dtype name => exact .var dtype name
  | letIn dtype name value body => exact .letIn dtype name value body
  | _ => exact .node rfl rfl

/-! ### Nodes with bounds of their own -/

/-- The node has a bound whatever the bounds of its operands are. -/
def hasOwnBound : Expr → Bool
  | .binary _ op _ _ => !op.isDivision
  | .shuffle _ vectors _ => !vectors.isEmpty
  | .call _ op args => op == .ifThenElse && args.length == 3
  | _ => true

/-- Every node of the expression has a bound whatever the bounds of its operands are. -/
def NeverFallsBack (expr : Expr) : Prop := ∀ node ∈ expr.postOrder, node.hasOwnBound = true

instance (expr : Expr) : Decidable expr.NeverFallsBack :=
  inferInstanceAs (Decidable (∀ node ∈ expr.postOrder, node.hasOwnBound = true))

theorem neverFallsBack_iff {expr : Expr} : expr.NeverFallsBack ↔
    expr.hasOwnBound = true ∧ ∀ child ∈ expr.children, child.NeverFallsBack := by
  constructor
  · intro never
    exact ⟨never expr expr.self_mem_postOrder, fun child isChild node member =>
      never node (mem_postOrder.mpr (.inr ⟨child, isChild, member⟩))⟩
  · rintro ⟨self, operands⟩ node member
    rcases mem_postOrder.mp member with rfl | ⟨child, isChild, inside⟩
    · exact self
    · exact operands child isChild node inside

end Expr

namespace Knowledge

open IndexAlgebra.Bound

/-- A node that has a bound of its own does not fall back. -/
theorem not_fallsBack {known : Knowledge} {locals : Table Bound} {expr : Expr}
    (ownBound : expr.hasOwnBound = true) : ¬known.FallsBack locals expr := by
  have computed : ∀ {dtype : DataType} {bound : Bound}, ofComputed? dtype (some bound) ≠ none := by
    intro dtype bound
    unfold ofComputed?
    split <;> exact Option.some_ne_none _
  cases expr with
  | var | intConst | boolConst | floatConst | cast => exact Option.some_ne_none _
  | not | select | ramp | broadcast | letIn => exact computed
  | binary dtype op lhs rhs =>
    cases op <;> first | exact computed | contradiction
  | shuffle dtype vectors indices =>
    cases vectors with
    | nil => contradiction
    | cons first rest => exact computed
  | call dtype op args =>
    obtain ⟨isChoice, three⟩ := Bool.and_eq_true_iff.mp ownBound
    cases eq_of_beq isChoice
    obtain ⟨cond, onTrue, onFalse, rfl⟩ := List.length_eq_three.mp (eq_of_beq three)
    exact computed

/-- An expression that never falls back outside keeps no range. -/
theorem everywhere_keepsRange {known inner : Knowledge} {locals innerLocals : Table Bound} {expr : Expr}
    (never : expr.NeverFallsBack) :
    Everywhere known inner (KeepsRange known inner) locals innerLocals expr := by
  induction expr using Expr.childrenInduction generalizing locals innerLocals with
  | step expr inductionHypothesis =>
    obtain ⟨ownBound, operands⟩ := Expr.neverFallsBack_iff.mp never
    have here : KeepsRange known inner locals innerLocals expr :=
      fun fallsBack => absurd fallsBack (not_fallsBack ownBound)
    cases expr.shape with
    | var dtype name => exact .node rfl here fun _ isChild => absurd isChild List.not_mem_nil
    | letIn dtype name value body =>
      have isValue : value ∈ (Expr.letIn dtype name value body).children := by simp [Expr.children]
      have isBody : body ∈ (Expr.letIn dtype name value body).children := by simp [Expr.children]
      exact .letIn here (inductionHypothesis value isValue (operands value isValue))
        (inductionHypothesis body isBody (operands body isBody))
    | node _ notLet =>
      exact .node notLet here fun operand isChild =>
        inductionHypothesis operand isChild (operands operand isChild)

/-! ### Consistent knowledge -/

/-- The bound variables of the expression are apart from what is known. -/
def Apart (known : Knowledge) (expr : Expr) : Prop :=
  ∀ bound ∈ expr.binders, bound.name ∉ known.names

theorem Apart.child {known : Knowledge} {expr operand : Expr} (apart : known.Apart expr)
    (isChild : operand ∈ expr.children) : known.Apart operand := by
  intro bound member
  obtain ⟨node, isNode, isBinder⟩ := List.mem_filterMap.mp member
  exact apart bound (List.mem_filterMap.mpr
    ⟨node, Expr.mem_postOrder.mpr (.inr ⟨operand, isChild, isNode⟩), isBinder⟩)

/-- The expression is typed, its bound variables are apart from what is known, and nothing is recorded
about the bound of a part with floating-point nodes. -/
structure Isolates (known : Knowledge) (expr : Expr) : Prop where
  typed : expr.WellTyped
  apart : known.Apart expr
  integral : ∀ node ∈ expr.postOrder, known.recordedBounds node ≠ [] → node.Integral

theorem Isolates.child {known : Knowledge} {expr operand : Expr} (isolates : known.Isolates expr)
    (isChild : operand ∈ expr.children) : known.Isolates operand :=
  ⟨isolates.typed.child isChild, isolates.apart.child isChild, fun node isNode =>
    isolates.integral node (Expr.mem_postOrder.mpr (.inr ⟨operand, isChild, isNode⟩))⟩

/-- The table has no variable with a known name. -/
def Hides (known : Knowledge) (locals : Table Bound) : Prop :=
  ∀ name : Variable, name.name ∈ known.names → locals.find? name = none

/-- What is recorded about an expression leaves it a bound that is not empty. -/
def Consistent (known : Knowledge) : Prop :=
  ∀ {expr : Expr} {locals : Table Bound}, known.Isolates expr → known.Hides locals →
    known.recordedBounds expr ≠ [] → (known.boundWithin locals expr).Ordered

/-- The bindings around a node have tighter bounds inside. -/
structure LocalsTighten (locals innerLocals : Table Bound) : Prop where
  tightens : ∀ name bound', locals.find? name = some bound' →
    ∃ bound, innerLocals.find? name = some bound ∧ bound.Tightens bound'
  absent : ∀ name, locals.find? name = none → innerLocals.find? name = none

section

variable {known inner : Knowledge} {locals innerLocals : Table Bound} {expr : Expr}

theorem LocalsTighten.insert (tighten : LocalsTighten locals innerLocals) (name : Variable)
    {bound bound' : Bound} (tightens : bound.Tightens bound') :
    LocalsTighten (locals.insert name bound') (innerLocals.insert name bound) := by
  refine ⟨fun other wider found => ?_, fun other absent => ?_⟩
  · rw [Table.find?_insert] at found ⊢
    split at found
    next same => exact ⟨bound, if_pos same, Option.some.inj found ▸ tightens⟩
    next different =>
      rw [if_neg different]
      exact tighten.tightens other wider found
  · rw [Table.find?_insert] at absent ⊢
    split at absent
    next => cases absent
    next different =>
      rw [if_neg different]
      exact tighten.absent other absent

theorem Hides.insert (hides : known.Hides innerLocals) {name : Variable}
    (apart : name.name ∉ known.names) (bound : Bound) : known.Hides (innerLocals.insert name bound) := by
  intro other isKnown
  have different : other ≠ name := fun same => apart (same ▸ isKnown)
  rw [Table.find?_insert, if_neg different]
  exact hides other isKnown

/-- The bound of the node is tighter inside. -/
def Tighter (known inner : Knowledge) (locals innerLocals : Table Bound) (expr : Expr) : Prop :=
  (inner.boundWithin innerLocals expr).Tightens (known.boundWithin locals expr)

section

variable (grows : inner.Extends known) (consistent : inner.Consistent)
  (hides : inner.Hides innerLocals)
include grows consistent hides

/-- A node whose bound before narrowing is not empty, and which lies within the wider bound, is tighter
after narrowing. -/
theorem tighter_of_narrowed (isolates : inner.Isolates expr) {raw raw' : Bound}
    (isBound : inner.boundWithin innerLocals expr = inner.narrowBound expr raw)
    (isBound' : known.boundWithin locals expr = known.narrowBound expr raw') (ordered : raw.Ordered)
    (subset : (inner.boundWithin innerLocals expr).isSubsetOf raw' = true) :
    Tighter known inner locals innerLocals expr := by
  refine Ordered.tightens ?_ ?_
  · by_cases nothing : inner.recordedBounds expr = []
    · rw [isBound, narrowBound_of_nothing nothing]
      exact ordered
    · exact consistent isolates hides nothing
  · rw [isBound] at subset ⊢
    rw [isBound']
    exact grows.isSubsetOf_narrowBound subset

/-- It is enough that the bound before narrowing is tighter. -/
theorem tighter_of_tightens (isolates : inner.Isolates expr) {raw raw' : Bound}
    (isBound : inner.boundWithin innerLocals expr = inner.narrowBound expr raw)
    (isBound' : known.boundWithin locals expr = known.narrowBound expr raw')
    (tightens : raw.Tightens raw') : Tighter known inner locals innerLocals expr := by
  refine tighter_of_narrowed grows consistent hides isolates isBound isBound' tightens.ordered ?_
  rw [isBound]
  exact isSubsetOf_trans (inner.narrowBound_isSubsetOf expr raw) tightens.isSubsetOf

theorem tighter_var {dtype : DataType} {name : Variable} (isolates : inner.Isolates (.var dtype name))
    (tighten : LocalsTighten locals innerLocals) :
    Tighter known inner locals innerLocals (.var dtype name) := by
  refine tighter_of_tightens grows consistent hides isolates (boundWithin_var dtype name)
    (boundWithin_var dtype name) ?_
  cases found : locals.find? name with
  | none =>
    rw [tighten.absent name found]
    exact (ordered_ofVariable name).refl
  | some wider =>
    obtain ⟨bound, found, tightens⟩ := tighten.tightens name wider found
    rw [found]
    exact tightens

/-- A node whose operands are tighter is tighter, unless it falls back outside and its bound inside is
not in the range that it falls back to. -/
theorem tighter_node (isolates : inner.Isolates expr) (notVar : expr.asVariable? = none)
    (notLet : expr.isLet = false) (keeps : KeepsRange known inner locals innerLocals expr)
    (operands : ∀ operand ∈ expr.children, Tighter known inner locals innerLocals operand) :
    Tighter known inner locals innerLocals expr := by
  have tighter : List.Forall₂ Tightens (expr.children.map (inner.boundWithin innerLocals))
      (expr.children.map (known.boundWithin locals)) :=
    List.forall₂_map_left_iff.mpr (List.forall₂_map_right_iff.mpr (List.forall₂_same.mpr operands))
  have sharpens : Sharpens (inner.nodeBound? innerLocals expr) (known.nodeBound? locals expr) :=
    sharpens_node isolates.typed tighter
  have isBound : inner.boundWithin innerLocals expr = _ := boundWithin_node notVar notLet
  refine tighter_of_narrowed grows consistent hides isolates isBound (boundWithin_node notVar notLet)
    (sharpens.ordered_getD expr.dtype) ?_
  cases wider : known.nodeBound? locals expr with
  | none => exact keeps wider
  | some raw' =>
    obtain ⟨raw, isRaw, tightens⟩ := sharpens.tightens raw' wider
    rw [isBound, isRaw]
    exact isSubsetOf_trans (inner.narrowBound_isSubsetOf expr raw) tightens.isSubsetOf

theorem tighter_letIn {dtype : DataType} {name : Variable} {value body : Expr}
    (isolates : inner.Isolates (.letIn dtype name value body))
    (ofBody : Tighter known inner (locals.insert name (known.boundWithin locals value))
      (innerLocals.insert name (inner.boundWithin innerLocals value)) body) :
    Tighter known inner locals innerLocals (.letIn dtype name value body) := by
  refine tighter_of_tightens grows consistent hides isolates (boundWithin_letIn dtype name value body)
    (boundWithin_letIn dtype name value body) ?_
  split
  · exact ordered_everything.refl
  · exact ofBody

end

/-- Where every node keeps the range that it falls back to outside, every node is tighter inside. -/
theorem Everywhere.tighter (grows : inner.Extends known) (consistent : inner.Consistent)
    (keeps : Everywhere known inner (KeepsRange known inner) locals innerLocals expr)
    (isolates : inner.Isolates expr) (hides : inner.Hides innerLocals)
    (tighten : LocalsTighten locals innerLocals) :
    Everywhere known inner (Tighter known inner) locals innerLocals expr := by
  induction keeps with
  | @node locals innerLocals expr notLet here _ inductionHypothesis =>
    have operands := fun operand isChild =>
      inductionHypothesis operand isChild (isolates.child isChild) hides tighten
    refine .node notLet ?_ operands
    cases expr.shape with
    | var dtype name => exact tighter_var grows consistent hides isolates tighten
    | letIn => contradiction
    | node notVar notLet =>
      exact tighter_node grows consistent hides isolates notVar notLet here
        fun operand isChild => (operands operand isChild).here
  | @letIn locals innerLocals dtype name value body here _ _ ofValue ofBody =>
    have isChild : value ∈ (Expr.letIn dtype name value body).children := by simp [Expr.children]
    have isChild' : body ∈ (Expr.letIn dtype name value body).children := by simp [Expr.children]
    have apart : name.name ∉ inner.names :=
      isolates.apart name (by simp [Expr.binders_letIn])
    have value := ofValue (isolates.child isChild) hides tighten
    have body := ofBody (isolates.child isChild') (hides.insert apart _)
      (tighten.insert name value.here)
    exact .letIn (tighter_letIn grows consistent hides isolates body.here) value body

theorem FallsBack.isNode (fallsBack : known.FallsBack locals expr) :
    expr.asVariable? = none ∧ expr.isLet = false := by
  cases expr with
  | var => cases fallsBack
  | letIn dtype name value body =>
    change ofComputed? dtype (some _) = none at fallsBack
    unfold ofComputed? at fallsBack
    split at fallsBack <;> contradiction
  | _ => exact ⟨rfl, rfl⟩

/-- A node that is no looser inside keeps the range that it falls back to outside. -/
theorem NoLooser.keepsRange (noLooser : NoLooser known inner locals innerLocals expr) :
    KeepsRange known inner locals innerLocals expr := by
  intro fallsBack
  obtain ⟨notVar, notLet⟩ := fallsBack.isNode
  have isBound : known.boundWithin locals expr = _ := boundWithin_node notVar notLet
  rw [NoLooser, isBound, fallsBack, Option.getD_none] at noLooser
  exact isSubsetOf_trans noLooser (known.narrowBound_isSubsetOf expr _)

/-- No node is looser inside exactly if every node keeps the range that it falls back to outside. -/
theorem everywhere_noLooser_iff (grows : inner.Extends known) (consistent : inner.Consistent)
    (isolates : inner.Isolates expr) (hides : inner.Hides innerLocals)
    (tighten : LocalsTighten locals innerLocals) :
    Everywhere known inner (NoLooser known inner) locals innerLocals expr ↔
      Everywhere known inner (KeepsRange known inner) locals innerLocals expr :=
  ⟨Everywhere.imp fun _ _ _ => NoLooser.keepsRange, fun keeps =>
    (keeps.tighter grows consistent isolates hides tighten).imp fun _ _ _ => Tightens.isSubsetOf⟩

end

end Knowledge

end IndexAlgebra
