/-
This file proves that a change that is refused leaves the analyzer as it was. A change in place does
what the operation answers: every check is made before the first write, also where the binding of a
range binds a value first, so that a fault meets an analyzer that nothing was written to. A session
that goes on after refusals therefore has the states of its accepted operations.
-/
import IndexAlgebra.Analyzer.InPlace
import IndexAlgebra.Proofs.ScopeStack

namespace IndexAlgebra

/-- A table whose entry is forgotten first has the new entry at most. -/
theorem Table.assign_eq_erase {α : Type} (table : Table α) (name : Variable) (value? : Option α) :
    table.assign name value? =
      match value? with
      | some value => (table.erase name).insert name value
      | none => table.erase name := by
  cases value? with
  | none => rfl
  | some value =>
    dsimp only [assign, insert]
    rw [erase_erase]

namespace Change

variable {analyzer : Analyzer} {name : Variable} {binding : Binding} {allowOverride : Bool}

/-- What a change leads to that does what is answered, and does nothing if that is a fault. -/
def outcome (before : Analyzer) : Except Fault Analyzer → EStateM.Result Fault Analyzer Unit
  | .ok next => .ok () next
  | .error fault => .error fault before

theorem eq_of_outcome_eq_error {before after : Analyzer} {answer : Except Fault Analyzer}
    {fault : Fault} (refused : outcome before answer = .error fault after) :
    after = before ∧ answer = .error fault := by
  cases answer with
  | ok next => cases refused
  | error other =>
    cases refused
    exact ⟨rfl, rfl⟩

/-! ### Steps -/

theorem run_ask {α : Type} (query : Analyzer → Except Fault α) : (ask query).run analyzer =
    match query analyzer with
    | .ok answer => .ok answer analyzer
    | .error fault => .error fault analyzer := by
  unfold ask
  rw [EStateM.run_bind, EStateM.run_get]
  dsimp only
  cases query analyzer <;> rfl

/-- Whether the variable has the binding already is answered without a write. -/
theorem run_isBoundTo : (isBoundTo name binding allowOverride).run analyzer =
    match analyzer.known.bindings.find? name with
    | none => .ok false analyzer
    | some existing =>
      if existing = binding then .ok true analyzer
      else if !allowOverride then .error (.bindingConflict name existing binding) analyzer
      else .ok false analyzer := by
  unfold isBoundTo
  rw [EStateM.run_bind, EStateM.run_get]
  dsimp only
  cases analyzer.known.bindings.find? name with
  | none => rfl
  | some existing =>
    dsimp only
    split
    · rfl
    · cases allowOverride <;> rfl

/-- A bound is refused without a write. -/
theorem run_refuseBound (bound : Bound) : (refuseBound name bound allowOverride).run analyzer =
    match analyzer.refusing? name allowOverride bound with
    | some existing => .error (.boundConflict name existing bound) analyzer
    | none => .ok () analyzer := by
  unfold refuseBound Analyzer.refusing?
  rw [EStateM.run_bind, EStateM.run_get]
  dsimp only
  cases analyzer.known.bounds.find? name with
  | none =>
    split <;> rfl
  | some existing =>
    cases unbound : !allowOverride && (analyzer.known.bindings.find? name).isNone with
    | false => rfl
    | true =>
      by_cases same : existing = bound
      · simp [same]
      · simp [same]

/-- The tables are written one after the other, and hold the binding and its consequences then. -/
theorem run_writes (derived : Consequences) :
    (do forget name; record name derived; recordBinding name binding : Change Unit).run analyzer =
      .ok () (analyzer.withConsequences name binding derived) := by
  obtain ⟨bound, congruence, value, range⟩ := derived
  rw [Analyzer.withConsequences, Analyzer.withBinding, Table.assign_eq_erase,
    Table.assign_eq_erase, Table.assign_eq_erase]
  cases congruence <;> cases value <;> cases range <;> rfl

/-- What follows from a binding is drawn and checked before the tables are written. -/
theorem run_store : (do
      let derived ← ask (·.consequences binding)
      refuseBound name derived.bound allowOverride
      forget name
      record name derived
      recordBinding name binding : Change Unit).run analyzer =
    outcome analyzer
      (analyzer.consequences binding >>= analyzer.store name binding allowOverride) := by
  rw [EStateM.run_bind, run_ask]
  cases analyzer.consequences binding with
  | error fault => rfl
  | ok derived =>
    change (refuseBound name derived.bound allowOverride >>= fun _ => _).run analyzer =
      outcome analyzer (analyzer.store name binding allowOverride derived)
    rw [EStateM.run_bind, run_refuseBound, Analyzer.store]
    cases analyzer.refusing? name allowOverride derived.bound with
    | some existing => rfl
    | none => exact run_writes derived

/-! ### Bindings -/

/-- A binding whose own consequences are drawn is stored as it is answered. -/
theorem run_bindAsGiven (given : binding.drawn = binding) :
    (bindAsGiven name binding allowOverride).run analyzer =
      outcome analyzer (analyzer.bind name binding allowOverride) := by
  unfold bindAsGiven
  rw [EStateM.run_bind, run_isBoundTo, Analyzer.bind_eq_bindDrawing, Analyzer.bindDrawing,
    Analyzer.drawn?, Analyzer.bindUndrawn, given]
  cases analyzer.known.bindings.find? name with
  | none => exact run_store
  | some existing =>
    dsimp only
    by_cases same : existing = binding
    · simp [same]
      rfl
    · cases allowOverride with
      | false => simp [same]; rfl
      | true => simpa [same] using run_store

/-- A range with a single value binds the variable to that value, and is stored in its place. -/
theorem bind_single {first extent : Expr} (single : extent.isInt 1)
    (isNew : analyzer.known.bindings.find? name ≠ some (.range first extent))
    (free : analyzer.known.bindings.find? name = none ∨ allowOverride) :
    analyzer.bind name (.range first extent) allowOverride =
      (analyzer.bind name (.value first) allowOverride).map fun bound =>
        bound.withBinding name (.range first extent) := by
  unfold Analyzer.bind
  cases found : analyzer.known.bindings.find? name with
  | none =>
    dsimp only
    rw [if_pos single, if_neg (by simp)]
    cases analyzer.assign name (.value first) allowOverride <;> rfl
  | some existing =>
    rw [found] at isNew free
    have override : allowOverride = true := by simpa using free
    have other : existing ≠ .range first extent := by simpa using isNew
    subst override
    dsimp only
    rw [if_pos single, if_neg other]
    by_cases same : existing = .value first
    · simp [same]
      rfl
    · simp only [Option.some_inj, same]
      cases analyzer.assign name (.value first) true <;> rfl

/-- A variable that is bound to the single value of a range first has the range in the place of the
value then. The value is refused before anything is written. -/
theorem run_bindSingle {first : Expr} :
    (do bindAsGiven name (.value first) allowOverride
        recordBinding name binding : Change Unit).run analyzer =
      outcome analyzer ((analyzer.bind name (.value first) allowOverride).map
        fun bound => bound.withBinding name binding) := by
  rw [EStateM.run_bind, run_bindAsGiven rfl]
  cases analyzer.bind name (.value first) allowOverride <;> rfl

/-- Binding a variable does what is answered, and nothing if that is a fault. -/
theorem run_bind : (bind name binding allowOverride).run analyzer =
    outcome analyzer (analyzer.bind name binding allowOverride) := by
  cases binding with
  | value expr => exact run_bindAsGiven rfl
  | range first extent =>
    unfold Change.bind
    by_cases single : extent.isInt 1
    · dsimp only
      rw [if_pos single, EStateM.run_bind, run_isBoundTo]
      cases found : analyzer.known.bindings.find? name with
      | none =>
        rw [bind_single single (by simp [found]) (.inl found)]
        exact run_bindSingle
      | some existing =>
        dsimp only
        by_cases same : existing = .range first extent
        · rw [if_pos same, Analyzer.bind, found]
          dsimp only
          rw [if_pos same]
          rfl
        · cases override : allowOverride with
          | false =>
            rw [if_neg same, Analyzer.bind, found]
            dsimp only
            rw [if_neg same]
            rfl
          | true =>
            rw [if_neg same, bind_single single (by simpa [found] using same) (.inr rfl)]
            exact run_bindSingle
    · dsimp only
      rw [if_neg single]
      exact run_bindAsGiven (if_neg single)

/-! ### Bounds -/

/-- Giving a variable a bound does what is answered, and nothing if that is a fault. -/
theorem run_updateBound {bound : Bound} : (updateBound name bound allowOverride).run analyzer =
    outcome analyzer (analyzer.updateBound name bound allowOverride) := by
  unfold Change.updateBound Analyzer.updateBound
  rw [EStateM.run_bind, EStateM.run_get]
  dsimp only
  cases analyzer.known.bounds.find? name with
  | none => rfl
  | some existing =>
    dsimp only
    split <;> rfl

/-! ### Scopes -/

/-- Leaving the last of scopes with different tokens brings back the facts before it. -/
theorem leaveScope_last {known : Knowledge} {outer : List Scope} {innermost : Scope}
    (parts : known.scopes = outer ++ [innermost])
    (apart : ∀ scope ∈ outer, scope.token ≠ innermost.token) :
    known.leaveScope innermost.token =
      { known with facts := known.facts.take innermost.height, scopes := outer } := by
  have passes : ∀ scope ∈ outer, decide (scope.token ≠ innermost.token) = true :=
    fun scope member => decide_eq_true (apart scope member)
  unfold Knowledge.leaveScope
  rw [parts, List.dropWhile_append_of_pos passes, List.takeWhile_append_of_pos passes]
  simp

/-- Leaving a scope is refused before anything is written. -/
theorem run_exitScope_error {token : Nat} {fault : Fault} {after : Analyzer}
    (refused : (exitScope token).run analyzer = .error fault after) :
    after = analyzer ∧ analyzer.exitScope token = .error fault := by
  unfold Change.exitScope at refused
  rw [EStateM.run_bind, EStateM.run_get] at refused
  unfold Analyzer.exitScope
  dsimp only at refused ⊢
  cases last : analyzer.known.scopes.getLast? with
  | none =>
    rw [last] at refused
    cases refused
    exact ⟨rfl, rfl⟩
  | some innermost =>
    rw [last] at refused
    dsimp only at refused ⊢
    by_cases same : innermost.token = token
    · rw [if_neg (not_not_intro same)] at refused
      cases refused
    · rw [if_pos same] at refused
      rw [if_neg same]
      split at refused
      next active =>
        rw [if_pos active]
        cases refused
        exact ⟨rfl, rfl⟩
      next inactive =>
        rw [if_neg inactive]
        cases refused
        exact ⟨rfl, rfl⟩

/-- Leaving the innermost of nested scopes does what is answered, and nothing if that is a fault. -/
theorem run_exitScope (nested : analyzer.Nested) {token : Nat} : (exitScope token).run analyzer =
    outcome analyzer (analyzer.exitScope token) := by
  unfold Change.exitScope Analyzer.exitScope
  rw [EStateM.run_bind, EStateM.run_get]
  dsimp only
  cases last : analyzer.known.scopes.getLast? with
  | none => rfl
  | some innermost =>
    dsimp only
    by_cases same : innermost.token = token
    · obtain ⟨outer, parts⟩ := List.getLast?_eq_some_iff.mp last
      have tokens := nested.token_lt
      rw [parts, List.pairwise_append] at tokens
      have apart : ∀ scope ∈ outer, scope.token ≠ innermost.token := fun scope member =>
        Nat.ne_of_lt (tokens.2.2 scope member innermost (List.mem_singleton_self _))
      have left : outer = analyzer.known.scopes.dropLast := by rw [parts, List.dropLast_concat]
      rw [if_neg (not_not_intro same), if_pos same, ← same, leaveScope_last parts apart, left]
      rfl
    · rw [if_pos same, if_neg same]
      split <;> rfl

end Change

namespace Analyzer

/-! ### Sessions -/

/-- An operation as a change in place. -/
def Operation.change : Operation → Change Unit
  | .bind name binding allowOverride => Change.bind name binding allowOverride
  | .updateBound name bound allowOverride => Change.updateBound name bound allowOverride
  | .markNonNegative expr => modify (·.markNonNegative expr)
  | .enterScope cond? => modify fun analyzer => (analyzer.enterScope cond?).2
  | .exitScope token => Change.exitScope token
  | .exitThrough token => modify (·.exitThrough token)

/-- The state that a change leaves behind, whether it was made or refused. -/
def changed (analyzer : Analyzer) (change : Change Unit) : Analyzer :=
  match change.run analyzer with
  | .ok () next => next
  | .error _ next => next

/-- An operation that is refused, at whichever check, leaves every part of the analyzer as it was.
It is refused with the fault that the operation answers. -/
theorem Operation.unchanged_of_refused {operation : Operation} {analyzer after : Analyzer}
    {fault : Fault} (refused : operation.change.run analyzer = .error fault after) :
    after = analyzer ∧ analyzer.attempt operation = .error fault := by
  cases operation with
  | bind name binding allowOverride =>
    exact Change.eq_of_outcome_eq_error (Change.run_bind.symm.trans refused)
  | updateBound name bound allowOverride =>
    exact Change.eq_of_outcome_eq_error (Change.run_updateBound.symm.trans refused)
  | markNonNegative expr => cases refused
  | enterScope cond? => cases refused
  | exitScope token => exact Change.run_exitScope_error refused
  | exitThrough token => cases refused

/-- With `x` within a bound, `y` bound to 3 and two scopes entered, these are refused without a
trace: a range of `x` with a single value outside the bound, whose recursion binds the value; a range
whose ends have different types; another value of `y`; another bound; leaving the outer scope first;
and leaving a scope that was never entered. -/
theorem Operation.unchanged_of_refused_each :
    let x : Variable := ⟨"x", .int32, false⟩
    let y : Variable := ⟨"y", .int32, false⟩
    let analyzer := afterAll {} [.updateBound x (.ofInts 0 9) false,
      .bind y (.value (.intConst .int32 3)) false, .enterScope none, .enterScope none]
    let operations : List Operation :=
      [.bind x (.range (.intConst .int32 12) (.intConst .int32 1)) false,
        .bind x (.range (.intConst .int32 0) (.intConst .int64 5)) false,
        .bind y (.value (.intConst .int32 4)) false,
        .updateBound x (.ofInts 0 5) false, .exitScope 0, .exitScope 7]
    ∀ operation ∈ operations, ∃ fault, operation.change.run analyzer = .error fault analyzer := by
  intro x y analyzer operations operation member
  have refusals : ∀ operation ∈ operations,
      (match operation.change.run analyzer with
        | .ok _ _ => false
        | .error _ _ => true) = true := by decide +kernel
  have refusal := refusals operation member
  cases answer : operation.change.run analyzer with
  | ok done next =>
    rw [answer] at refusal
    cases refusal
  | error fault after =>
    obtain ⟨same, -⟩ := Operation.unchanged_of_refused answer
    exact ⟨fault, same ▸ rfl⟩

/-- With nested scopes a change in place leads to the state after the operation. -/
theorem Nested.changed_eq {analyzer : Analyzer} (nested : analyzer.Nested)
    (operation : Operation) : analyzer.changed operation.change = analyzer.after operation := by
  have outcome_eq : operation.change.run analyzer =
      Change.outcome analyzer (analyzer.attempt operation) := by
    cases operation with
    | bind name binding allowOverride => exact Change.run_bind
    | updateBound name bound allowOverride => exact Change.run_updateBound
    | markNonNegative expr => rfl
    | enterScope cond? => rfl
    | exitScope token => exact Change.run_exitScope nested
    | exitThrough token => rfl
  unfold changed Analyzer.after
  rw [outcome_eq]
  cases analyzer.attempt operation <;> rfl

/-- The state that a session in place leaves behind. -/
def changedBy (analyzer : Analyzer) (changes : List (Change Unit)) : Analyzer :=
  changes.foldl changed analyzer

theorem Nested.changedBy_eq {analyzer : Analyzer} (nested : analyzer.Nested)
    (operations : List Operation) :
    analyzer.changedBy (operations.map Operation.change) = analyzer.afterAll operations := by
  induction operations generalizing analyzer with
  | nil => rfl
  | cons operation later inductionHypothesis =>
    show (analyzer.changed operation.change).changedBy (later.map Operation.change) =
      (analyzer.after operation).afterAll later
    rw [nested.changed_eq]
    exact inductionHypothesis (nested.after operation)

/-- A session in place, which goes on after refusals, has the states of its accepted operations. -/
theorem changedBy_eq_afterAll (limits : Limits) (operations : List Operation) :
    changedBy { limits } (operations.map Operation.change) = afterAll { limits } operations :=
  (nested_start limits).changedBy_eq operations

end Analyzer

end IndexAlgebra
