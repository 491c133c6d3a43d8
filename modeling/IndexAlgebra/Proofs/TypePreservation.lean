/-
This file proves that simplification preserves types. Renaming bound variables, replacing variables
by values of their type, reduction and flattening each keep every type that an expression has, and
so does any number of rounds of them. Of the analyzer it takes for granted that the values which
stand for variables have the types of these; every operation on a typed binding keeps that, since
what it stores is simplified before.
-/
import IndexAlgebra.Proofs.Entries
import IndexAlgebra.Proofs.ScopeStack
import IndexAlgebra.Proofs.SumTyping
import IndexAlgebra.Proofs.Termination

namespace IndexAlgebra

namespace Expr

/-! ### Renaming -/

mutual

/-- A renamed expression has the type of the original if every image has the type of its
variable. -/
theorem Renamed.keepsType {image : Variable → Variable} :
    {expr renamed : Expr} → Renamed image expr renamed →
      (∀ name, (image name).dtype = name.dtype) → renamed.KeepsType expr
  | _, _, .var dtype name, kept => by
    rintro _ ⟨coherent, rfl⟩
    refine ⟨?_, rfl⟩
    rw [Coherent] at coherent ⊢
    rwa [kept name]
  | _, _, .intConst .., _ | _, _, .floatConst .., _ | _, _, .boolConst .., _ => fun _ typed => typed
  | _, _, .cast _ value, kept | _, _, .not _ value, kept | _, _, .broadcast _ _ value, kept => by
    intro _ typed
    have keeps := List.Forall₂.cons (value.keepsType kept) .nil
    exact typed.withChildren keeps
  | _, _, .binary _ _ left right, kept | _, _, .ramp _ _ left right, kept => by
    intro _ typed
    have keeps := List.Forall₂.cons (left.keepsType kept) (.cons (right.keepsType kept) .nil)
    exact typed.withChildren keeps
  | _, _, .select _ cond onTrue onFalse, kept => by
    intro _ typed
    have keeps := List.Forall₂.cons (cond.keepsType kept)
      (.cons (onTrue.keepsType kept) (.cons (onFalse.keepsType kept) .nil))
    exact typed.withChildren keeps
  | _, _, .shuffle _ _ operands, kept | _, _, .call _ _ operands, kept => fun _ typed =>
    typed.withChildren (operands.keepsType kept)
  | _, _, .letIn dtype sameType _ _ value body, kept => by
    rintro _ ⟨coherent, rfl⟩
    rw [Coherent] at coherent
    obtain ⟨isValue, isBody, bound, isType⟩ := coherent
    have value' := value.keepsType kept _ ⟨isValue, bound⟩
    have body' := body.keepsType (fun other => by
      rw [Function.update_apply]
      split
      next same => rw [same, sameType]
      next => exact kept other) _ ⟨isBody, isType.symm⟩
    refine ⟨?_, rfl⟩
    rw [Coherent]
    exact ⟨value'.coherent, body'.coherent, value'.isType.trans sameType.symm, body'.isType.symm⟩

theorem RenamedList.keepsType {image : Variable → Variable} :
    {exprs renamed : List Expr} → RenamedList image exprs renamed →
      (∀ name, (image name).dtype = name.dtype) → List.Forall₂ KeepsType renamed exprs
  | _, _, .nil, _ => .nil
  | _, _, .cons first others, kept => .cons (first.keepsType kept) (others.keepsType kept)

end

theorem KeepsType.trans {first second third : Expr} (inner : first.KeepsType second)
    (outer : second.KeepsType third) : first.KeepsType third :=
  fun type typed => inner type (outer type typed)

end Expr

open IndexAlgebra.Expr

theorem Knowledge.isolate_keepsType (known : Knowledge) (expr : Expr) :
    (known.isolate expr).KeepsType expr := fun type typed =>
  (known.isolate_renamed typed.coherent.namesTyped).keepsType (fun _ => rfl) type typed

namespace Analyzer

/-! ### Simplification -/

/-- The values that stand for variables have the types of these. -/
def ValuesTyped (analyzer : Analyzer) : Prop :=
  ∀ name value, analyzer.known.values.find? name = some value → value.HasType name.dtype

variable {analyzer : Analyzer}

theorem ValuesTyped.reduce (values : analyzer.ValuesTyped) (expr : Expr) :
    (analyzer.reduce expr).KeepsType expr := by
  intro type typed
  have prepared : (analyzer.prepare expr).HasType type :=
    (analyzer.known.isolate_keepsType expr type typed).substitute fun name value found _ =>
      values name value found
  obtain ⟨result, progress, stands, -, reports⟩ := analyzer.exists_reduceWithSteps expr
  rw [Analyzer.reduce, reports]
  exact stands.1.typed type prepared

theorem flatten_keepsType (analyzer : Analyzer) (expr : Expr) :
    (analyzer.flatten expr).KeepsType expr :=
  Flattening.flatten_keepsType SumForm.divideExact?_keepsType expr

theorem ValuesTyped.canonicalRound (values : analyzer.ValuesTyped) (expr : Expr) :
    (analyzer.canonicalRound expr).KeepsType expr := by
  unfold Analyzer.canonicalRound
  dsimp only
  split
  · exact values.reduce expr
  · exact (values.reduce _).trans (analyzer.flatten_keepsType expr)

theorem repeatStep_keepsType {step : Expr → Expr} (each : ∀ expr, (step expr).KeepsType expr)
    (rounds : Nat) (expr : Expr) : (repeatStep step rounds expr).KeepsType expr := by
  induction rounds generalizing expr with
  | zero => exact fun _ typed => typed
  | succ rounds inductionHypothesis =>
    rw [repeatStep]
    split
    · exact fun _ typed => typed
    · exact (inductionHypothesis (step expr)).trans (each expr)

theorem ValuesTyped.canonical (values : analyzer.ValuesTyped) (rounds : Nat) (expr : Expr) :
    (analyzer.canonical rounds expr).KeepsType expr :=
  (repeatStep_keepsType values.canonicalRound _ _).trans (analyzer.known.isolate_keepsType expr)

theorem ValuesTyped.simplify (values : analyzer.ValuesTyped) (rounds? : Option Nat) (expr : Expr) :
    (analyzer.simplify rounds? expr).KeepsType expr :=
  repeatStep_keepsType (fun expr => (values.canonical 1 _).trans (values.reduce expr)) _ expr

/-! ### Operations -/

/-- The value that an operation binds a variable to has the type of the variable. -/
def Operation.Typed : Operation → Prop
  | .bind name binding _ => ∀ value, binding.drawn = .value value → value.HasType name.dtype
  | _ => True

/-- The value that follows from a binding is the value of the variable, reduced. -/
theorem cases_of_value {drawn : Binding} {derived : Consequences} {value : Expr}
    (draws : analyzer.consequences drawn = .ok derived) (stored : derived.value = some value) :
    ∃ expr, drawn = .value expr ∧ value = analyzer.reduce expr := by
  cases drawn with
  | value expr =>
    rw [consequences_value] at draws
    cases draws
    exact ⟨expr, rfl, (Option.some.inj stored).symm⟩
  | range first extent =>
    cases isLast : lastOfRange first extent with
    | error fault =>
      unfold consequences at draws
      dsimp only at draws
      rw [isLast] at draws
      cases draws
    | ok last =>
      rw [consequences_range _ isLast] at draws
      cases draws
      cases stored

theorem values_exitThrough (token : Nat) :
    (analyzer.exitThrough token).known.values = analyzer.known.values := by
  unfold Analyzer.exitThrough Knowledge.leaveScope
  split <;> rfl

/-- A value that stands for a variable after an operation stood for it before, or the operation binds the
variable to an expression, and the value is what this is simplified to. -/
theorem value_after {operation : Operation} {name : Variable} {value : Expr}
    (found : (analyzer.after operation).known.values.find? name = some value) :
    analyzer.known.values.find? name = some value ∨
      ∃ binding allowOverride expr, operation = .bind name binding allowOverride ∧
        binding.drawn = .value expr ∧ value = analyzer.reduce expr := by
  unfold Analyzer.after at found
  cases answer : analyzer.attempt operation with
  | error fault =>
    rw [answer] at found
    exact .inl found
  | ok next =>
    rw [answer] at found
    dsimp only at found
    cases operation with
    | bind subject binding allowOverride =>
      rcases bind_cases answer with ⟨derived, -, draws, rfl⟩ | ⟨-, rfl | ⟨-, rfl⟩⟩
      · have has :
            (analyzer.withConsequences subject binding derived).known.Has name (.value value) := found
        rw [has_withConsequences] at has
        split at has
        next same =>
          obtain ⟨expr, drawn, isReduced⟩ := cases_of_value draws has
          exact .inr ⟨binding, allowOverride, expr, same ▸ rfl, drawn, isReduced⟩
        next => exact .inl has
      · exact .inl found
      · exact .inl found
    | updateBound subject bound allowOverride =>
      rw [updateBound_eq_ok answer] at found
      exact .inl found
    | markNonNegative expr =>
      cases answer
      unfold Analyzer.markNonNegative at found
      split at found <;> exact .inl found
    | enterScope cond? =>
      cases answer
      exact .inl found
    | exitScope token =>
      rw [exitThrough_of_exitScope answer, values_exitThrough] at found
      exact .inl found
    | exitThrough token =>
      cases answer
      rw [values_exitThrough] at found
      exact .inl found

theorem ValuesTyped.after (values : analyzer.ValuesTyped) {operation : Operation}
    (typed : operation.Typed) : (analyzer.after operation).ValuesTyped := by
  intro name value found
  rcases value_after found with before | ⟨binding, allowOverride, expr, rfl, drawn, rfl⟩
  · exact values name value before
  · exact values.reduce expr _ (typed expr drawn)

/-- The values of variables have the types of these in every state that is reached by operations
whose own values have them. -/
theorem valuesTyped_afterAll (limits : Limits) (operations : List Operation)
    (typed : ∀ operation ∈ operations, operation.Typed) :
    (({ limits } : Analyzer).afterAll operations).ValuesTyped := by
  have start : ({ limits } : Analyzer).ValuesTyped := fun _ _ found => by cases found
  unfold afterAll
  generalize ({ limits } : Analyzer) = analyzer at start
  induction operations generalizing analyzer with
  | nil => exact start
  | cons first later inductionHypothesis =>
    exact inductionHypothesis (fun operation member => typed operation (List.mem_cons_of_mem _ member))
      _ (start.after (typed first List.mem_cons_self))

/-! ### Type preservation -/

/-- Simplification preserves types: reduction, canonical forms of any number of rounds and any
number of rounds of both give a coherent expression of the same type, if the values that stand for
variables have the types of these. -/
theorem simplification_preserves_type (analyzer : Analyzer) (values : analyzer.ValuesTyped)
    (expr : Expr) (coherent : expr.Coherent) :
    (analyzer.reduce expr).HasType expr.dtype ∧
      (∀ rounds, (analyzer.canonical rounds expr).HasType expr.dtype) ∧
      ∀ rounds?, (analyzer.simplify rounds? expr).HasType expr.dtype :=
  ⟨values.reduce expr _ coherent.hasType,
    fun rounds => values.canonical rounds expr _ coherent.hasType,
    fun rounds? => values.simplify rounds? expr _ coherent.hasType⟩

/-- A ramp from a variable with a single value plus a vector of sums of two variables, one of them
bound to three, is a ramp of the type of the sum. -/
theorem simplification_preserves_type_ramp :
    let bound : Variable := ⟨"x", .int32, false⟩
    let free : Variable := ⟨"y", .int32, false⟩
    let index : Variable := ⟨"i", .int32, false⟩
    let constant := Expr.intConst .int32
    let analyzer := ({} : Analyzer).afterAll
      [.bind bound (.value (constant 3)) false, .bind index (.range (constant 0) (constant 1)) false]
    let vector : DataType := DataType.int32.withLanes 4
    let sum := Expr.binary .int32 .sub (.binary .int32 .add bound.expr free.expr) free.expr
    let expr := Expr.binary vector .add (.ramp vector index.expr (constant 2) 4) (.broadcast vector sum 4)
    analyzer.reduce expr = .ramp vector (constant 3) (constant 2) 4 ∧
      (analyzer.reduce expr).HasType vector ∧
      (∀ rounds, (analyzer.canonical rounds expr).HasType vector) ∧
      ∀ rounds?, (analyzer.simplify rounds? expr).HasType vector := by
  intro bound free index constant analyzer vector sum expr
  have values : analyzer.ValuesTyped := by
    refine valuesTyped_afterAll {} _ fun operation member => ?_
    simp only [List.mem_cons, List.not_mem_nil, or_false] at member
    rcases member with rfl | rfl <;>
    · rintro value drawn
      cases drawn
      exact (WellTyped.coherent (by decide)).hasType
  have coherent : expr.Coherent := WellTyped.coherent (by decide)
  exact ⟨by decide +kernel, simplification_preserves_type analyzer values expr coherent⟩

end Analyzer

end IndexAlgebra
