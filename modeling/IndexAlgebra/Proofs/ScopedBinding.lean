/-
This file proves what remains of a binding that is made inside a constraint scope once the scope is
left. The facts and the scopes are those of before. The binding itself remains, and so do the
consequences that were drawn from it, although the condition of the scope took part in them. They
are those of the same binding outside the scope exactly if the condition makes no difference to them.
-/
import IndexAlgebra.Proofs.Scopes

namespace IndexAlgebra

namespace Analyzer

/-! ### Binding inside a scope -/

/-- The answer of a binding, and the state it leaves. An error leaves everything as it was. -/
def tryBind (analyzer : Analyzer) (name : Variable) (binding : Binding) (allowOverride : Bool) :
    Option Fault × Analyzer :=
  match analyzer.bind name binding allowOverride with
  | .ok next => (none, next)
  | .error fault => (some fault, analyzer)

/-- Enters a scope with the condition, binds the variable and leaves the scope. -/
def bindInScope (analyzer : Analyzer) (cond : Expr) (name : Variable) (binding : Binding)
    (allowOverride : Bool) : Option Fault × Except Fault Analyzer :=
  let (token, inner) := analyzer.enterScope (some cond)
  let (fault?, bound) := inner.tryBind name binding allowOverride
  (fault?, bound.exitScope token)

/-- The condition makes no difference to what the binding draws. -/
def DrawsAlike (analyzer : Analyzer) (cond : Expr) (name : Variable) (binding : Binding)
    (allowOverride : Bool) : Prop :=
  ∀ drawn, analyzer.drawn? name binding allowOverride = some drawn →
    ∀ outside inside, analyzer.consequences drawn = .ok outside →
      (analyzer.enterScope (some cond)).2.consequences drawn = .ok inside →
      analyzer.Indistinct name allowOverride outside inside

variable (analyzer : Analyzer) (name : Variable) (binding : Binding) (allowOverride : Bool)

/-! ### A binding keeps the scope it is made in -/

theorem refusing?_within (facts : List Fact) (bound : Bound) :
    (analyzer.within facts).refusing? name allowOverride bound =
      analyzer.refusing? name allowOverride bound := rfl

theorem drawn?_within (facts : List Fact) :
    (analyzer.within facts).drawn? name binding allowOverride =
      analyzer.drawn? name binding allowOverride := rfl

theorem find?_bindings_within (facts : List Fact) :
    (analyzer.within facts).known.bindings.find? name = analyzer.known.bindings.find? name := rfl

theorem store_within (facts : List Fact) (derived : Consequences) :
    (analyzer.within facts).store name binding allowOverride derived =
      (analyzer.store name binding allowOverride derived).map fun next => next.within facts := by
  unfold store
  rw [refusing?_within]
  cases analyzer.refusing? name allowOverride derived.bound <;> rfl

theorem bindUndrawn_within (facts : List Fact) :
    (analyzer.within facts).bindUndrawn name binding allowOverride =
      (analyzer.bindUndrawn name binding allowOverride).map fun next => next.within facts := by
  unfold bindUndrawn
  rw [find?_bindings_within]
  cases analyzer.known.bindings.find? name with
  | none => rfl
  | some existing =>
    dsimp only
    split
    · rfl
    · split <;> rfl

/-- A binding with given consequences leads to the same inside a scope and outside of it. -/
theorem bindDrawing_within (facts : List Fact) (draw : Binding → Except Fault Consequences) :
    (analyzer.within facts).bindDrawing name binding allowOverride draw =
      (analyzer.bindDrawing name binding allowOverride draw).map fun next => next.within facts := by
  unfold bindDrawing
  rw [drawn?_within]
  cases analyzer.drawn? name binding allowOverride with
  | none => exact bindUndrawn_within analyzer name binding allowOverride facts
  | some drawn =>
    cases derived : draw drawn with
    | error fault => simp only [derived]; rfl
    | ok derived' =>
      simp only [derived]
      exact store_within analyzer name binding allowOverride facts derived'

/-- Whether consequences can be drawn does not depend on what is known. -/
theorem consequences_eq_error_iff (other : Analyzer) (drawn : Binding) (fault : Fault) :
    analyzer.consequences drawn = .error fault ↔ other.consequences drawn = .error fault := by
  cases drawn with
  | value expr => simp [consequences, pure, Except.pure]
  | range first extent =>
    unfold consequences
    dsimp only
    cases lastOfRange first extent with
    | error other => rfl
    | ok last => simp [Bind.bind, Except.bind, pure, Except.pure]

/-! ### What the scope leaves behind -/

/-- The answer and the state after a binding with given consequences. -/
def tryDrawing (draw : Binding → Except Fault Consequences) : Option Fault × Analyzer :=
  match analyzer.bindDrawing name binding allowOverride draw with
  | .ok next => (none, next)
  | .error fault => (some fault, analyzer)

theorem tryBind_eq_tryDrawing : analyzer.tryBind name binding allowOverride =
    analyzer.tryDrawing name binding allowOverride analyzer.consequences := by
  unfold tryBind tryDrawing
  rw [bind_eq_bindDrawing]

theorem tryDrawing_within (facts : List Fact) (draw : Binding → Except Fault Consequences) :
    (analyzer.within facts).tryDrawing name binding allowOverride draw =
      ((analyzer.tryDrawing name binding allowOverride draw).1,
        (analyzer.tryDrawing name binding allowOverride draw).2.within facts) := by
  unfold tryDrawing
  rw [bindDrawing_within]
  cases analyzer.bindDrawing name binding allowOverride draw <;> rfl

theorem tryDrawing_sameScopes (draw : Binding → Except Fault Consequences) :
    analyzer.SameScopes (analyzer.tryDrawing name binding allowOverride draw).2 := by
  unfold tryDrawing
  cases bound : analyzer.bindDrawing name binding allowOverride draw with
  | error fault => exact .refl analyzer
  | ok next => exact bindDrawing_sameScopes bound

/-- The answer and what is known afterwards show the whole result of a binding. -/
theorem tryDrawing_eq_iff (draw other : Binding → Except Fault Consequences) :
    (analyzer.tryDrawing name binding allowOverride draw).1 =
        (analyzer.tryDrawing name binding allowOverride other).1 ∧
      (analyzer.tryDrawing name binding allowOverride draw).2.known =
        (analyzer.tryDrawing name binding allowOverride other).2.known ↔
      analyzer.bindDrawing name binding allowOverride draw =
        analyzer.bindDrawing name binding allowOverride other := by
  have first := tryDrawing_sameScopes analyzer name binding allowOverride draw
  have second := tryDrawing_sameScopes analyzer name binding allowOverride other
  refine ⟨?_, ?_⟩
  · rintro ⟨answers, known⟩
    have states : (analyzer.tryDrawing name binding allowOverride draw).2 =
        (analyzer.tryDrawing name binding allowOverride other).2 :=
      first.eq_of_known second known
    unfold tryDrawing at answers states
    cases left : analyzer.bindDrawing name binding allowOverride draw with
    | error fault =>
      cases right : analyzer.bindDrawing name binding allowOverride other with
      | error fault' => simpa [left, right] using answers
      | ok next' => simp [left, right] at answers
    | ok next =>
      cases right : analyzer.bindDrawing name binding allowOverride other with
      | error fault' => simp [left, right] at answers
      | ok next' => simpa [left, right] using states
  · intro equal
    unfold tryDrawing
    rw [equal]
    exact ⟨rfl, rfl⟩

variable {analyzer}

/-- Leaving the scope removes its facts, and the binding and what was drawn from it remain. -/
theorem bindInScope_eq (nested : analyzer.Nested) (cond : Expr) :
    ∃ left, analyzer.bindInScope cond name binding allowOverride =
        ((analyzer.tryDrawing name binding allowOverride
          (analyzer.enterScope (some cond)).2.consequences).1, .ok left) ∧
      left.known = (analyzer.tryDrawing name binding allowOverride
        (analyzer.enterScope (some cond)).2.consequences).2.known := by
  have entered := enterScope_eq analyzer (some cond)
  generalize analyzer.factsWithin (some cond) = facts at entered
  have drawing := tryDrawing_within analyzer name binding allowOverride facts
    (analyzer.within facts).consequences
  have same := tryDrawing_sameScopes analyzer name binding allowOverride
    (analyzer.within facts).consequences
  have exited := (nested.of_sameScopes same).exitScope_within facts
  rw [same.nextToken] at exited
  unfold bindInScope
  rw [entered]
  dsimp only
  rw [tryBind_eq_tryDrawing, drawing]
  dsimp only
  rw [exited]
  exact ⟨_, rfl, rfl⟩

/-- Binding a variable inside a scope and leaving the scope answers and leaves behind the same as
binding it outside exactly if the condition of the scope makes no difference to what the binding
draws. -/
theorem bindInScope_iff_drawsAlike (reachable : analyzer.Reachable) (cond : Expr) :
    (∃ left, analyzer.bindInScope cond name binding allowOverride =
        ((analyzer.tryBind name binding allowOverride).1, .ok left) ∧
      left.known = (analyzer.tryBind name binding allowOverride).2.known) ↔
      analyzer.DrawsAlike cond name binding allowOverride := by
  obtain ⟨left, run, known⟩ := bindInScope_eq name binding allowOverride reachable.nested cond
  have agree := bindDrawing_eq_iff analyzer name binding allowOverride
    (consequences_eq_error_iff analyzer (analyzer.enterScope (some cond)).2)
  have shown := tryDrawing_eq_iff analyzer name binding allowOverride
    analyzer.consequences (analyzer.enterScope (some cond)).2.consequences
  rw [tryBind_eq_tryDrawing, run, DrawsAlike, ← agree, ← shown, ← known]
  refine ⟨?_, ?_⟩
  · rintro ⟨other, runs, knows⟩
    obtain ⟨answers, lefts⟩ := Prod.mk.inj runs
    cases lefts
    exact ⟨answers.symm, knows.symm⟩
  · rintro ⟨answers, knows⟩
    exact ⟨left, by rw [answers], knows.symm⟩

/-- The condition `y < 5` makes no difference to what is drawn from `x = 3`. -/
theorem bindInScope_constant :
    let limit : Variable := ⟨"y", .int32, false⟩
    let cond := Expr.binary .bool .lt limit.expr (.intConst .int32 5)
    let binding := Binding.value (.intConst .int32 3)
    let start : Analyzer := {}
    ∃ left, start.bindInScope cond ⟨"x", .int32, false⟩ binding false =
        ((start.tryBind ⟨"x", .int32, false⟩ binding false).1, .ok left) ∧
      left.known = (start.tryBind ⟨"x", .int32, false⟩ binding false).2.known := by
  intro limit cond binding start
  refine (bindInScope_iff_drawsAlike _ binding false (.start {}) cond).mpr ?_
  intro drawn found outside inside drawnOutside drawnInside
  cases found
  have value : start.reduce (.intConst .int32 3) = .intConst .int32 3 := by decide +kernel
  have valueInside : (start.enterScope (some cond)).2.reduce (.intConst .int32 3) =
      .intConst .int32 3 := by decide +kernel
  have bounds : start.known.inferBound (.intConst .int32 3) =
      (start.enterScope (some cond)).2.known.inferBound (.intConst .int32 3) := by decide +kernel
  have classes : start.known.inferCongruence (.intConst .int32 3) =
      (start.enterScope (some cond)).2.known.inferCongruence (.intConst .int32 3) := by
    decide +kernel
  have same : start.consequences (.value (.intConst .int32 3)) =
      (start.enterScope (some cond)).2.consequences (.value (.intConst .int32 3)) := by
    rw [consequences_value, consequences_value, value, valueInside, bounds, classes]
  exact Or.inl (Except.ok.inj (drawnOutside.symm.trans (same.trans drawnInside)))

/-- The bound of `y` that is known while `y < 5` remains the bound of `x` once `x = y` is bound in
that scope and the scope is left. Outside of the scope the bound of `x` is that of its type. -/
theorem bindInScope_leaves_bound :
    ¬ ∀ (analyzer : Analyzer) (cond : Expr) (name : Variable) (binding : Binding)
      (allowOverride : Bool), analyzer.Reachable →
      ∃ left, analyzer.bindInScope cond name binding allowOverride =
          ((analyzer.tryBind name binding allowOverride).1, .ok left) ∧
        left.known = (analyzer.tryBind name binding allowOverride).2.known := by
  intro restores
  let limit : Variable := ⟨"y", .int32, false⟩
  let name : Variable := ⟨"x", .int32, false⟩
  let cond := Expr.binary .bool .lt limit.expr (.intConst .int32 5)
  let start : Analyzer := {}
  obtain ⟨left, run, known⟩ := restores start cond name (.value limit.expr) false (.start {})
  have outside : (start.tryBind name (.value limit.expr) false).2.known.bounds.find? name =
      some (.ofInts (-2147483648) 2147483647) := by decide +kernel
  have inside : ((start.bindInScope cond name (.value limit.expr) false).2.toOption.map
      fun left => left.known.bounds.find? name) = some (some (.ofInts (-2147483648) 4)) := by
    decide +kernel
  rw [run] at inside
  have remains : left.known.bounds.find? name = some (.ofInts (-2147483648) 4) :=
    Option.some.inj inside
  rw [known, outside] at remains
  exact absurd remains (by decide)

end Analyzer

end IndexAlgebra
