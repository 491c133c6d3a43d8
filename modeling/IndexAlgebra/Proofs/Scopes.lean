/-
This file proves that constraint scopes are well nested in every state of the analyzer. The tokens
of the active scopes grow from the outermost to the innermost and are below the next token, and the
facts of a scope follow those of the scopes around it. Leaving a scope that was entered last
therefore restores what was known, whatever happened to the tables in between.
-/
import IndexAlgebra.Analyzer.Constraints
import IndexAlgebra.Proofs.Binding

namespace IndexAlgebra

namespace Knowledge

/-! ### Entering and leaving -/

/-- Leaving the scope that was entered last restores what was known before. -/
theorem leaveScope_enterScope {known : Knowledge} {token : Nat}
    (fresh : ∀ scope ∈ known.scopes, scope.token ≠ token) (facts : List Fact) :
    (known.enterScope token facts).leaveScope token = known := by
  have outer : ∀ scope ∈ known.scopes, decide (scope.token ≠ token) = true :=
    fun scope member => decide_eq_true (fresh scope member)
  unfold leaveScope enterScope
  simp only
  rw [List.dropWhile_append_of_pos outer, List.takeWhile_append_of_pos outer]
  simp

end Knowledge

namespace Analyzer

/-! ### Leaving the scope entered last -/

/-- The analyzer inside one more scope in which the facts hold. -/
def within (analyzer : Analyzer) (facts : List Fact) : Analyzer :=
  { analyzer with
    known := analyzer.known.enterScope analyzer.nextToken facts
    nextToken := analyzer.nextToken + 1 }

/-- The facts that hold in a scope with the condition. -/
def factsWithin (analyzer : Analyzer) (cond? : Option Expr) : List Fact :=
  match cond? with
  | some cond => analyzer.factsOf (analyzer.known.isolate cond)
  | none => []

theorem enterScope_eq (analyzer : Analyzer) (cond? : Option Expr) :
    analyzer.enterScope cond? =
      (analyzer.nextToken, analyzer.within (analyzer.factsWithin cond?)) := rfl

/-! ### Reachable states -/

/-- The state is reached from a new analyzer by the operations that change it. -/
inductive Reachable : Analyzer → Prop
  | start (limits : Limits) : Reachable { limits }
  | bind {analyzer next : Analyzer} {name : Variable} {binding : Binding} {allowOverride : Bool} :
    Reachable analyzer → analyzer.bind name binding allowOverride = .ok next → Reachable next
  | updateBound {analyzer next : Analyzer} {name : Variable} {bound : Bound}
      {allowOverride : Bool} :
    Reachable analyzer → analyzer.updateBound name bound allowOverride = .ok next → Reachable next
  | markNonNegative {analyzer : Analyzer} (expr : Expr) :
    Reachable analyzer → Reachable (analyzer.markNonNegative expr)
  | enterScope {analyzer : Analyzer} (cond? : Option Expr) :
    Reachable analyzer → Reachable (analyzer.enterScope cond?).2
  | exitScope {analyzer next : Analyzer} {token : Nat} :
    Reachable analyzer → analyzer.exitScope token = .ok next → Reachable next
  | exitThrough {analyzer : Analyzer} (token : Nat) :
    Reachable analyzer → Reachable (analyzer.exitThrough token)

/-- The scopes are nested: their tokens grow and are below the next one, and their facts follow
each other. -/
structure Nested (analyzer : Analyzer) : Prop where
  token_lt : analyzer.known.scopes.Pairwise fun outer inner => outer.token < inner.token
  token_lt_next : ∀ scope ∈ analyzer.known.scopes, scope.token < analyzer.nextToken
  height_le : analyzer.known.scopes.Pairwise fun outer inner => outer.height ≤ inner.height
  height_le_length : ∀ scope ∈ analyzer.known.scopes,
    scope.height ≤ analyzer.known.facts.length

/-- Two states that differ in their tables at most. -/
structure SameScopes (analyzer other : Analyzer) : Prop where
  limits : other.limits = analyzer.limits
  scopes : other.known.scopes = analyzer.known.scopes
  facts : other.known.facts = analyzer.known.facts
  nextToken : other.nextToken = analyzer.nextToken

theorem Nested.of_sameScopes {analyzer other : Analyzer} (nested : analyzer.Nested)
    (same : analyzer.SameScopes other) : other.Nested := by
  obtain ⟨first, second, third, fourth⟩ := nested
  refine ⟨?_, ?_, ?_, ?_⟩ <;> simpa only [same.scopes, same.facts, same.nextToken]

theorem SameScopes.eq_of_known {analyzer first second : Analyzer}
    (left : analyzer.SameScopes first) (right : analyzer.SameScopes second)
    (known : first.known = second.known) : first = second := by
  cases first
  cases second
  have limits := left.limits.trans right.limits.symm
  have nextToken := left.nextToken.trans right.nextToken.symm
  dsimp only at limits nextToken known
  rw [limits, nextToken, known]

/-! ### What each operation does to the scopes -/

theorem SameScopes.refl (analyzer : Analyzer) : analyzer.SameScopes analyzer := ⟨rfl, rfl, rfl, rfl⟩

theorem bindDrawing_sameScopes {analyzer next : Analyzer} {name : Variable} {binding : Binding}
    {allowOverride : Bool} {draw : Binding → Except Fault Consequences}
    (bound : analyzer.bindDrawing name binding allowOverride draw = .ok next) :
    analyzer.SameScopes next := by
  unfold bindDrawing at bound
  split at bound
  next drawn _ =>
    cases derived : draw drawn with
    | error fault => rw [derived] at bound; cases bound
    | ok derived' =>
      rw [derived] at bound
      change analyzer.store name binding allowOverride derived' = .ok next at bound
      unfold store at bound
      split at bound
      · cases bound
      · cases bound
        exact ⟨rfl, rfl, rfl, rfl⟩
  next =>
    unfold bindUndrawn at bound
    repeat' split at bound
    all_goals cases bound
    all_goals exact ⟨rfl, rfl, rfl, rfl⟩

theorem bind_sameScopes {analyzer next : Analyzer} {name : Variable} {binding : Binding}
    {allowOverride : Bool} (bound : analyzer.bind name binding allowOverride = .ok next) :
    analyzer.SameScopes next := by
  rw [bind_eq_bindDrawing] at bound
  exact bindDrawing_sameScopes bound

theorem updateBound_sameScopes {analyzer next : Analyzer} {name : Variable} {bound : Bound}
    {allowOverride : Bool} (updated : analyzer.updateBound name bound allowOverride = .ok next) :
    analyzer.SameScopes next := by
  have stored : next = { analyzer with
      known := { analyzer.known with bounds := analyzer.known.bounds.insert name bound } } := by
    unfold updateBound at updated
    split at updated
    · split at updated
      · cases updated
      · cases updated
        rfl
    · cases updated
      rfl
  rw [stored]
  exact ⟨rfl, rfl, rfl, rfl⟩

theorem markNonNegative_sameScopes (analyzer : Analyzer) (expr : Expr) :
    analyzer.SameScopes (analyzer.markNonNegative expr) := by
  unfold markNonNegative
  split <;> exact ⟨rfl, rfl, rfl, rfl⟩

theorem Nested.enterScope {analyzer : Analyzer} (nested : analyzer.Nested) (cond? : Option Expr) :
    (analyzer.enterScope cond?).2.Nested := by
  obtain ⟨tokenLt, tokenLtNext, heightLe, heightLeLength⟩ := nested
  refine ⟨?_, ?_, ?_, ?_⟩
  · show (analyzer.known.scopes ++ [_]).Pairwise _
    rw [List.pairwise_append]
    refine ⟨tokenLt, List.pairwise_singleton _ _, ?_⟩
    intro outer member inner isNew
    rw [List.mem_singleton.mp isNew]
    exact tokenLtNext outer member
  · intro scope member
    rcases List.mem_append.mp member with old | isNew
    · exact Nat.lt_succ_of_lt (tokenLtNext scope old)
    · rw [List.mem_singleton.mp isNew]
      exact Nat.lt_succ_self _
  · show (analyzer.known.scopes ++ [_]).Pairwise _
    rw [List.pairwise_append]
    refine ⟨heightLe, List.pairwise_singleton _ _, ?_⟩
    intro outer member inner isNew
    rw [List.mem_singleton.mp isNew]
    exact heightLeLength outer member
  · intro scope member
    show scope.height ≤ (analyzer.known.facts ++ _).length
    rw [List.length_append]
    rcases List.mem_append.mp member with old | isNew
    · exact Nat.le_add_right_of_le (heightLeLength scope old)
    · rw [List.mem_singleton.mp isNew]
      exact Nat.le_add_right _ _

/-- The scopes that remain are the outermost ones, and the facts that remain are theirs. -/
theorem Nested.exitThrough {analyzer : Analyzer} (nested : analyzer.Nested) (token : Nat) :
    (analyzer.exitThrough token).Nested := by
  unfold Analyzer.exitThrough Knowledge.leaveScope
  split
  next => exact nested
  next scope rest dropped =>
    have whole := List.takeWhile_append_dropWhile
      (p := fun scope : Scope => decide (scope.token ≠ token)) (l := analyzer.known.scopes)
    rw [dropped] at whole
    obtain ⟨tokenLt, tokenLtNext, heightLe, heightLeLength⟩ := nested
    have outermost := List.takeWhile_sublist (l := analyzer.known.scopes)
      fun scope => decide (scope.token ≠ token)
    refine ⟨tokenLt.sublist outermost, ?_, heightLe.sublist outermost, ?_⟩
    · intro outer member
      exact tokenLtNext outer (outermost.subset member)
    · intro outer member
      show outer.height ≤ (analyzer.known.facts.take scope.height).length
      rw [List.length_take, Nat.le_min]
      rw [← whole, List.pairwise_append] at heightLe
      exact ⟨heightLe.2.2 outer member scope List.mem_cons_self,
        heightLeLength outer (outermost.subset member)⟩

theorem exitThrough_of_exitScope {analyzer next : Analyzer} {token : Nat}
    (left : analyzer.exitScope token = .ok next) : next = analyzer.exitThrough token := by
  unfold exitScope at left
  dsimp only at left
  split at left
  · cases left
  · split at left
    · cases left
      rfl
    · split at left <;> cases left

/-- Scopes are nested in every state that is reached. -/
theorem Reachable.nested {analyzer : Analyzer} (reachable : analyzer.Reachable) :
    analyzer.Nested := by
  induction reachable with
  | start limits => exact ⟨.nil, by simp, .nil, by simp⟩
  | bind _ bound inductionHypothesis =>
    exact inductionHypothesis.of_sameScopes (bind_sameScopes bound)
  | updateBound _ updated inductionHypothesis =>
    exact inductionHypothesis.of_sameScopes (updateBound_sameScopes updated)
  | markNonNegative expr _ inductionHypothesis =>
    exact inductionHypothesis.of_sameScopes (markNonNegative_sameScopes _ expr)
  | enterScope cond? _ inductionHypothesis => exact inductionHypothesis.enterScope cond?
  | exitScope _ left inductionHypothesis =>
    rw [exitThrough_of_exitScope left]
    exact inductionHypothesis.exitThrough _
  | exitThrough token _ inductionHypothesis => exact inductionHypothesis.exitThrough token

/-- Leaving the scope that was entered last restores what was known before. -/
theorem Nested.exitScope_within {analyzer : Analyzer} (nested : analyzer.Nested)
    (facts : List Fact) :
    (analyzer.within facts).exitScope analyzer.nextToken =
      .ok { analyzer with nextToken := analyzer.nextToken + 1 } := by
  have fresh : ∀ scope ∈ analyzer.known.scopes, scope.token ≠ analyzer.nextToken :=
    fun scope member => Nat.ne_of_lt (nested.token_lt_next scope member)
  have innermost : (analyzer.within facts).known.scopes.getLast? =
      some ⟨analyzer.nextToken, analyzer.known.facts.length⟩ := List.getLast?_concat
  have restored := Knowledge.leaveScope_enterScope fresh facts
  unfold exitScope
  dsimp only
  rw [innermost]
  dsimp only
  rw [if_pos rfl]
  show Except.ok { analyzer.within facts with
    known := (analyzer.known.enterScope analyzer.nextToken facts).leaveScope analyzer.nextToken } = _
  rw [restored]
  rfl

end Analyzer

end IndexAlgebra
