/-
This file proves that constraint scopes are a stack with exact undo, whatever happens in between.
An analyzer is taken through any operations that change it, those that are refused included. The
scopes stay nested, only the innermost one can be left by its token, and leaving a scope brings back
the facts and the scopes of the moment it was entered, also when scopes inside it were never left.
-/
import IndexAlgebra.Proofs.Scopes
import Mathlib.Data.List.TakeWhile

namespace IndexAlgebra.Analyzer

/-! ### Operations -/

/-- An operation that changes an analyzer. -/
inductive Operation where
  | bind (name : Variable) (binding : Binding) (allowOverride : Bool)
  | updateBound (name : Variable) (bound : Bound) (allowOverride : Bool)
  | markNonNegative (expr : Expr)
  | enterScope (cond? : Option Expr)
  | exitScope (token : Nat)
  | exitThrough (token : Nat)

/-- What an operation answers: the changed state, unless it is refused. -/
def attempt (analyzer : Analyzer) : Operation → Except Fault Analyzer
  | .bind name binding allowOverride => analyzer.bind name binding allowOverride
  | .updateBound name bound allowOverride => analyzer.updateBound name bound allowOverride
  | .markNonNegative expr => .ok (analyzer.markNonNegative expr)
  | .enterScope cond? => .ok (analyzer.enterScope cond?).2
  | .exitScope token => analyzer.exitScope token
  | .exitThrough token => .ok (analyzer.exitThrough token)

/-- The state after an operation. One that is refused leaves everything as it was. -/
def after (analyzer : Analyzer) (operation : Operation) : Analyzer :=
  match analyzer.attempt operation with
  | .ok next => next
  | .error _ => analyzer

/-- The state after some operations, one after the other. -/
def afterAll (analyzer : Analyzer) (operations : List Operation) : Analyzer :=
  operations.foldl after analyzer

theorem afterAll_append (analyzer : Analyzer) (earlier later : List Operation) :
    analyzer.afterAll (earlier ++ later) = (analyzer.afterAll earlier).afterAll later :=
  List.foldl_append

/-- The scope with the token is active. -/
def IsActive (analyzer : Analyzer) (token : Nat) : Prop :=
  ∃ scope ∈ analyzer.known.scopes, scope.token = token

/-- The token of the innermost scope. -/
def innermost? (analyzer : Analyzer) : Option Nat := analyzer.known.scopes.getLast?.map Scope.token

/-- The state with these facts and scopes, and everything else as it is. -/
def withStack (analyzer : Analyzer) (facts : List Fact) (scopes : List Scope) : Analyzer :=
  { analyzer with known := { analyzer.known with facts, scopes } }

/-! ### What one operation does -/

/-- What an operation does to the scopes: nothing, or it enters a scope, or it leaves one together
with the scopes inside it. -/
theorem after_cases (analyzer : Analyzer) (operation : Operation) :
    analyzer.SameScopes (analyzer.after operation) ∨
      (∃ facts, analyzer.after operation = analyzer.within facts) ∨
      ∃ token, analyzer.after operation = analyzer.exitThrough token := by
  unfold after
  cases answer : analyzer.attempt operation with
  | error fault => exact .inl (.refl analyzer)
  | ok next =>
    dsimp only
    cases operation with
    | bind name binding allowOverride => exact .inl (bind_sameScopes answer)
    | updateBound name bound allowOverride => exact .inl (updateBound_sameScopes answer)
    | markNonNegative expr =>
      cases answer
      exact .inl (markNonNegative_sameScopes analyzer expr)
    | enterScope cond? =>
      cases answer
      exact .inr (.inl ⟨_, rfl⟩)
    | exitScope token => exact .inr (.inr ⟨token, exitThrough_of_exitScope answer⟩)
    | exitThrough token =>
      cases answer
      exact .inr (.inr ⟨token, rfl⟩)

theorem Nested.within {analyzer : Analyzer} (nested : analyzer.Nested) (facts : List Fact) :
    (analyzer.within facts).Nested := by
  have empty := nested.enterScope none
  obtain ⟨tokenLt, tokenLtNext, heightLe, -⟩ := empty
  refine ⟨tokenLt, tokenLtNext, heightLe, ?_⟩
  intro scope member
  show scope.height ≤ (analyzer.known.facts ++ facts).length
  rw [List.length_append]
  rcases List.mem_append.mp member with old | isNew
  · exact Nat.le_add_right_of_le (nested.height_le_length scope old)
  · rw [List.mem_singleton.mp isNew]
    exact Nat.le_add_right _ _

theorem Nested.after {analyzer : Analyzer} (nested : analyzer.Nested) (operation : Operation) :
    (analyzer.after operation).Nested := by
  rcases after_cases analyzer operation with same | ⟨facts, entered⟩ | ⟨token, left⟩
  · exact nested.of_sameScopes same
  · rw [entered]
    exact nested.within facts
  · rw [left]
    exact nested.exitThrough token

theorem Nested.afterAll {analyzer : Analyzer} (nested : analyzer.Nested)
    (operations : List Operation) : (analyzer.afterAll operations).Nested := by
  induction operations generalizing analyzer with
  | nil => exact nested
  | cons operation later inductionHypothesis => exact inductionHypothesis (nested.after operation)

theorem nested_start (limits : Limits) : ({ limits } : Analyzer).Nested :=
  (Reachable.start limits).nested

/-! ### Leaving by a token -/

theorem isActive_of_innermost {analyzer : Analyzer} {token : Nat}
    (innermost : analyzer.innermost? = some token) : analyzer.IsActive token := by
  obtain ⟨scope, last, rfl⟩ := Option.map_eq_some_iff.mp innermost
  exact ⟨scope, List.mem_of_getLast? last, rfl⟩

/-- The answer to leaving by a token: success for the innermost scope, one error for the other
active scopes and another for every token that no active scope has. -/
theorem exitScope_cases (analyzer : Analyzer) (token : Nat) :
    (analyzer.innermost? = some token ∧
        analyzer.exitScope token = .ok (analyzer.exitThrough token)) ∨
      (∃ innermost, analyzer.innermost? = some innermost ∧ innermost ≠ token ∧
        analyzer.IsActive token ∧
        analyzer.exitScope token = .error { cause := .scopeOrder token innermost }) ∨
      (¬analyzer.IsActive token ∧
        analyzer.exitScope token = .error { cause := .inactiveScope token }) := by
  unfold exitScope innermost? IsActive
  dsimp only
  split
  next noScope =>
    have empty : analyzer.known.scopes = [] := List.getLast?_eq_none_iff.mp noScope
    exact .inr (.inr ⟨by simp [empty], rfl⟩)
  next innermost isLast =>
    by_cases same : innermost.token = token
    · rw [if_pos same, isLast, Option.map_some, same]
      exact .inl ⟨rfl, rfl⟩
    · rw [if_neg same, isLast, Option.map_some]
      by_cases active : analyzer.known.scopes.any fun scope => scope.token == token
      · rw [if_pos active]
        have someScope : ∃ scope ∈ analyzer.known.scopes, scope.token = token := by simpa using active
        exact .inr (.inl ⟨_, rfl, same, someScope, rfl⟩)
      · rw [if_neg active]
        have noScope : ¬∃ scope ∈ analyzer.known.scopes, scope.token = token := by simpa using active
        exact .inr (.inr ⟨noScope, rfl⟩)

/-- Which of its three answers leaving by a token gives. -/
structure ExitsInOrder (analyzer : Analyzer) (token : Nat) : Prop where
  succeeds : (∃ next, analyzer.exitScope token = .ok next) ↔ analyzer.innermost? = some token
  outOfOrder : (∃ innermost, analyzer.exitScope token =
      .error { cause := .scopeOrder token innermost } ∧ analyzer.innermost? = some innermost) ↔
    analyzer.IsActive token ∧ analyzer.innermost? ≠ some token
  inactive : analyzer.exitScope token = .error { cause := .inactiveScope token } ↔
    ¬analyzer.IsActive token

theorem exitsInOrder (analyzer : Analyzer) (token : Nat) : analyzer.ExitsInOrder token := by
  rcases exitScope_cases analyzer token with
    ⟨innermost, exits⟩ | ⟨other, innermost, different, active, exits⟩ | ⟨inactive, exits⟩
  · have active := isActive_of_innermost innermost
    exact ⟨by simp [exits, innermost], by simp [exits, innermost], by simp [exits, active]⟩
  · exact ⟨by simp [exits, innermost, different], by simp [exits, innermost, different, active],
      by simp [exits, active]⟩
  · have notInnermost : analyzer.innermost? ≠ some token :=
      fun innermost => inactive (isActive_of_innermost innermost)
    exact ⟨by simp [exits, notInnermost], by simp [exits, inactive], by simp [exits, inactive]⟩

/-! ### What an active scope keeps -/

/-- The state comes after a scope was entered in another one. As long as that scope is active, the
scopes up to it and the facts before it are those of the moment it was entered. Its token is not
given out again. -/
structure Follows (state entered : Analyzer) : Prop where
  token_lt : entered.nextToken < state.nextToken
  scopes : state.IsActive entered.nextToken →
    entered.known.scopes ++ [⟨entered.nextToken, entered.known.facts.length⟩] <+:
      state.known.scopes
  facts : state.IsActive entered.nextToken → entered.known.facts <+: state.known.facts

theorem follows_within (entered : Analyzer) (facts : List Fact) :
    (entered.within facts).Follows entered :=
  ⟨Nat.lt_succ_self _, fun _ => List.prefix_rfl, fun _ => List.prefix_append _ _⟩

theorem Follows.of_sameScopes {state entered other : Analyzer} (follows : state.Follows entered)
    (same : state.SameScopes other) : other.Follows entered := by
  obtain ⟨tokenLt, scopes, facts⟩ := follows
  refine ⟨?_, ?_, ?_⟩ <;> simpa only [IsActive, same.scopes, same.facts, same.nextToken]

/-- Another scope that is entered has a token of its own. -/
theorem Follows.within {state entered : Analyzer} (follows : state.Follows entered)
    (facts : List Fact) : (state.within facts).Follows entered := by
  have before : (state.within facts).IsActive entered.nextToken →
      state.IsActive entered.nextToken := by
    rintro ⟨scope, member, same⟩
    rcases List.mem_append.mp member with old | isNew
    · exact ⟨scope, old, same⟩
    · rw [List.mem_singleton.mp isNew] at same
      exact absurd same (Nat.ne_of_gt follows.token_lt)
  exact ⟨Nat.lt_succ_of_lt follows.token_lt,
    fun active => (follows.scopes (before active)).trans (List.prefix_append _ _),
    fun active => (follows.facts (before active)).trans (List.prefix_append _ _)⟩

/-- What leaving through a scope does: nothing if the scope is not active, and otherwise the scopes
outside it remain with the facts before it. -/
theorem exitThrough_cases (state : Analyzer) (token : Nat) :
    (¬state.IsActive token ∧ state.exitThrough token = state) ∨
      ∃ outer left inner, state.known.scopes = outer ++ left :: inner ∧ left.token = token ∧
        state.exitThrough token = state.withStack (state.known.facts.take left.height) outer := by
  have parts := List.takeWhile_append_dropWhile
    (p := fun scope : Scope => decide (scope.token ≠ token)) (l := state.known.scopes)
  unfold exitThrough Knowledge.leaveScope
  split
  next inactive =>
    rw [inactive, List.append_nil] at parts
    refine .inl ⟨fun ⟨scope, member, same⟩ => ?_, rfl⟩
    rw [← parts] at member
    simpa [same] using List.mem_takeWhile_imp member
  next left inner dropped =>
    rw [dropped] at parts
    have stops := List.head?_dropWhile_not
      (fun scope : Scope => decide (scope.token ≠ token)) state.known.scopes
    rw [dropped] at stops
    exact .inr ⟨_, left, inner, parts.symm, by simpa using stops, rfl⟩

/-- The scopes up to the one that was entered have tokens up to its own. -/
theorem Follows.token_le {state entered : Analyzer} (follows : state.Follows entered)
    (nested : state.Nested) (active : state.IsActive entered.nextToken) :
    ∀ scope ∈ entered.known.scopes ++ [⟨entered.nextToken, entered.known.facts.length⟩],
      scope.token ≤ entered.nextToken := by
  have tokens := nested.token_lt.sublist (follows.scopes active).sublist
  rw [List.pairwise_append] at tokens
  intro scope member
  rcases List.mem_append.mp member with earlier | isLast
  · exact Nat.le_of_lt (tokens.2.2 scope earlier _ (List.mem_singleton_self _))
  · exact Nat.le_of_eq (congrArg Scope.token (List.mem_singleton.mp isLast))

/-- A scope that stays active when another one is left is outside it. -/
theorem Follows.prefix_outer {state entered : Analyzer} (follows : state.Follows entered)
    (nested : state.Nested) {outer inner : List Scope} {left scope : Scope}
    (parts : state.known.scopes = outer ++ left :: inner) (member : scope ∈ outer)
    (same : scope.token = entered.nextToken) :
    entered.known.scopes ++ [⟨entered.nextToken, entered.known.facts.length⟩] <+: outer := by
  have active : state.IsActive entered.nextToken := ⟨scope, by simp [parts, member], same⟩
  have starts := follows.scopes active
  have tokens := nested.token_lt
  rw [parts, List.pairwise_append] at tokens
  have later : entered.nextToken < left.token :=
    same ▸ tokens.2.2 scope member left List.mem_cons_self
  rw [parts] at starts
  rcases List.prefix_or_prefix_of_prefix starts (List.prefix_append outer (left :: inner)) with
    within | ⟨rest, whole⟩
  · exact within
  cases rest with
  | nil => exact ⟨[], by rw [← whole, List.append_nil, List.append_nil]⟩
  | cons next rest =>
    -- The scope that is left would be one of those up to the one that was entered.
    rw [← whole, List.prefix_append_right_inj, List.cons_prefix_cons] at starts
    have upTo := follows.token_le nested active next (whole ▸ by simp)
    rw [starts.1] at upTo
    exact absurd upTo (Nat.not_le.mpr later)

theorem Follows.exitThrough {state entered : Analyzer} (follows : state.Follows entered)
    (nested : state.Nested) (token : Nat) : (state.exitThrough token).Follows entered := by
  rcases exitThrough_cases state token with
    ⟨-, unchanged⟩ | ⟨outer, left, inner, parts, -, leaves⟩
  · rw [unchanged]
    exact follows
  rw [leaves]
  have starts : (state.withStack (state.known.facts.take left.height) outer).IsActive
      entered.nextToken → state.IsActive entered.nextToken ∧
        entered.known.scopes ++ [⟨entered.nextToken, entered.known.facts.length⟩] <+: outer :=
    fun ⟨scope, member, same⟩ => ⟨⟨scope, by simp [parts, show scope ∈ outer from member], same⟩,
      follows.prefix_outer nested parts member same⟩
  have heights := nested.height_le
  rw [parts, List.pairwise_append] at heights
  refine ⟨follows.token_lt, fun active => (starts active).2, fun active => ?_⟩
  obtain ⟨before, within⟩ := starts active
  exact List.prefix_take_iff.mpr ⟨follows.facts before,
    heights.2.2 _ (within.subset (List.mem_append_right _ (List.mem_singleton_self _))) left
      List.mem_cons_self⟩

theorem Follows.after {state entered : Analyzer} (follows : state.Follows entered)
    (nested : state.Nested) (operation : Operation) : (state.after operation).Follows entered := by
  rcases after_cases state operation with same | ⟨facts, enters⟩ | ⟨token, leaves⟩
  · exact follows.of_sameScopes same
  · rw [enters]
    exact follows.within facts
  · rw [leaves]
    exact follows.exitThrough nested token

theorem Follows.afterAll {state entered : Analyzer} (follows : state.Follows entered)
    (nested : state.Nested) (operations : List Operation) :
    (state.afterAll operations).Follows entered := by
  induction operations generalizing state with
  | nil => exact follows
  | cons operation later inductionHypothesis =>
    exact inductionHypothesis (follows.after nested operation) (nested.after operation)

/-! ### Exact undo -/

/-- Leaving through a scope brings back the facts and the scopes of the moment it was entered. -/
theorem Follows.exitThrough_eq {state entered : Analyzer} (follows : state.Follows entered)
    (outside : entered.Nested)
    (active : state.IsActive entered.nextToken) :
    state.exitThrough entered.nextToken =
      state.withStack entered.known.facts entered.known.scopes := by
  have fresh : ∀ scope ∈ entered.known.scopes, decide (scope.token ≠ entered.nextToken) = true :=
    fun scope member => decide_eq_true (Nat.ne_of_lt (outside.token_lt_next scope member))
  obtain ⟨inner, scopes⟩ := follows.scopes active
  obtain ⟨later, facts⟩ := follows.facts active
  unfold Analyzer.exitThrough Knowledge.leaveScope
  rw [← scopes, List.append_assoc, List.dropWhile_append_of_pos fresh,
    List.takeWhile_append_of_pos fresh, ← facts]
  simp [withStack]

/-- Leaving through a scope that is not active changes nothing. -/
theorem exitThrough_of_inactive {state : Analyzer} {token : Nat} (inactive : ¬state.IsActive token) :
    state.exitThrough token = state := by
  rcases exitThrough_cases state token with ⟨-, unchanged⟩ | ⟨outer, left, inner, parts, same, -⟩
  · exact unchanged
  · exact absurd ⟨left, by simp [parts], same⟩ inactive

/-- Constraint scopes are a stack with exact undo. After any operations the scopes are nested, and
of all tokens only that of the innermost scope can be left by. Whatever happened after a scope was
entered, leaving it, by its token or together with forgotten scopes inside it, brings back the facts
and the scopes of the moment before and changes nothing else. -/
theorem afterAll_undoes (limits : Limits) (operations : List Operation) :
    let state := afterAll { limits } operations
    state.Nested ∧ (∀ token, state.ExitsInOrder token) ∧
      ∀ earlier cond? later, operations = earlier ++ .enterScope cond? :: later →
        let entered := afterAll { limits } earlier
        let token := (entered.enterScope cond?).1
        (∀ next, state.exitScope token = .ok next →
          next = state.withStack entered.known.facts entered.known.scopes) ∧
        (state.IsActive token →
          state.exitThrough token = state.withStack entered.known.facts entered.known.scopes) ∧
        (¬state.IsActive token → state.exitThrough token = state) := by
  intro state
  have nested : state.Nested := (nested_start limits).afterAll operations
  refine ⟨nested, exitsInOrder state, ?_⟩
  intro earlier cond? later split entered token
  have outside : entered.Nested := (nested_start limits).afterAll earlier
  have follows : state.Follows entered := by
    have run : state =
        ((entered.within (entered.factsWithin cond?)).afterAll later : Analyzer) := by
      show afterAll { limits } operations = _
      rw [split, afterAll_append]
      rfl
    rw [run]
    exact (follows_within entered _).afterAll (outside.within _) later
  refine ⟨fun next exits => ?_, follows.exitThrough_eq outside, exitThrough_of_inactive⟩
  have active := isActive_of_innermost ((exitsInOrder state token).succeeds.mp ⟨next, exits⟩)
  rw [exitThrough_of_exitScope exits]
  exact follows.exitThrough_eq outside active

/-- A bound that is noted inside two scopes, of which the inner one is forgotten, outlives both. -/
theorem afterAll_undoes_forgotten :
    let name : Variable := ⟨"x", .int32, false⟩
    let cond := Expr.binary .bool .lt name.expr (.intConst .int32 5)
    let operations : List Operation :=
      [.enterScope (some cond), .enterScope none, .updateBound name (.ofInts 0 9) false]
    let state := afterAll {} operations
    operations = [] ++ .enterScope (some cond) ::
        [.enterScope none, .updateBound name (.ofInts 0 9) false] ∧
      state.IsActive 0 ∧ state.exitThrough 0 = state.withStack [] [] ∧
      (state.exitThrough 0).known.bounds.find? name = some (.ofInts 0 9) := by
  intro name cond operations state
  have active : state.IsActive 0 := ⟨⟨0, 0⟩, by decide +kernel, rfl⟩
  have undone : state.exitThrough 0 = state.withStack [] [] :=
    ((afterAll_undoes {} operations).2.2 [] (some cond) _ rfl).2.1 active
  refine ⟨rfl, active, undone, ?_⟩
  rw [undone]
  rfl

end IndexAlgebra.Analyzer
