/-
This file proves what simplification keeps. A relation of what an expression becomes to the expression
is kept if it holds of every rule and may be composed: in turn, and of the operands of a node with the
node. Every run that has a result then has one in the relation to the expression, whatever fuel and
limits it is given and whatever the rules consult.
-/
import IndexAlgebra.Proofs.Termination

namespace IndexAlgebra.Reduction

open IndexAlgebra.Expr

/-- Whatever the rule makes of the expression is in the relation to it. -/
def Rule.Relates (relation : Expr → Expr → Prop) (evidence : Evidence) (expr : Expr) : Rule → Prop
  | .plain _ apply => ∀ result, apply evidence expr = some result → relation result expr
  | .counted _ fits apply => ∀ result, fits expr = true → apply expr = some result →
    relation result expr
  | .comparing _ _ conclude => ∀ found result, conclude found expr = some result →
    relation result expr

theorem Rule.relates_true (evidence : Evidence) (expr : Expr) (rule : Rule) :
    Rule.Relates (fun _ _ => True) evidence expr rule := by
  cases rule <;> simp [Rule.Relates]

theorem Rule.Relates.mono {relation relation' : Expr → Expr → Prop} {evidence : Evidence} {expr : Expr}
    {rule : Rule} (relates : Rule.Relates relation evidence expr rule)
    (implied : ∀ result, relation result expr → relation' result expr) :
    Rule.Relates relation' evidence expr rule := by
  cases rule with
  | plain => exact fun result applies => implied result (relates result applies)
  | counted => exact fun result fits applies => implied result (relates result fits applies)
  | comparing => exact fun found result concludes => implied result (relates found result concludes)

/-- A relation that every rule keeps and that composes. -/
structure Kept (relation : Expr → Expr → Prop) : Prop where
  refl : ∀ expr, relation expr expr
  trans : ∀ {first second third}, relation first second → relation second third →
    relation first third
  withChildren : ∀ {expr : Expr} {operands : List Expr}, List.Forall₂ relation operands expr.children →
    relation (expr.withChildren operands) expr
  rules : ∀ evidence expr, ∀ rule ∈ rulesFor expr, Rule.Relates relation evidence expr rule

/-! ### Runs -/

/-- Every simplified form that is kept is in the relation to the expression that it is kept for. -/
def Progress.Related (relation : Expr → Expr → Prop) (progress : Progress) : Prop :=
  ∀ pair ∈ progress.results, relation pair.2 pair.1

/-- If the run has a result, the condition holds of it, and what is kept stays in the relation. -/
def Ensures (relation : Expr → Expr → Prop) {α : Type} (run : Run α) (holds : α → Prop) : Prop :=
  ∀ progress result next, progress.Related relation → run.run progress = some (result, next) →
    next.Related relation ∧ holds result

variable {relation : Expr → Expr → Prop} {α β : Type}

theorem Ensures.pure {holds : α → Prop} {result : α} (isSo : holds result) :
    Ensures relation (Pure.pure result) holds := by
  rintro progress _ _ related ran
  cases ran
  exact ⟨related, isSo⟩

theorem Ensures.bind {run : Run α} {next : α → Run β} {middle : α → Prop} {holds : β → Prop}
    (first : Ensures relation run middle)
    (rest : ∀ result, middle result → Ensures relation (next result) holds) :
    Ensures relation (run >>= next) holds := by
  intro progress final last related ran
  rw [StateT.run_bind] at ran
  obtain ⟨⟨result, between⟩, ranFirst, ranRest⟩ := Option.bind_eq_some_iff.mp ran
  obtain ⟨relatedBetween, isSo⟩ := first progress result between related ranFirst
  exact rest result isSo between final last relatedBetween ranRest

theorem Ensures.map {run : Run α} {change : α → β} {middle : α → Prop} {holds : β → Prop}
    (first : Ensures relation run middle) (implied : ∀ result, middle result → holds (change result)) :
    Ensures relation (change <$> run) holds := by
  rw [← bind_pure_comp]
  exact first.bind fun result isSo => .pure (implied result isSo)

theorem Ensures.mono {run : Run α} {holds holds' : α → Prop} (ensures : Ensures relation run holds)
    (implied : ∀ result, holds result → holds' result) : Ensures relation run holds' := by
  intro progress result next related ran
  obtain ⟨kept, isSo⟩ := ensures progress result next related ran
  exact ⟨kept, implied result isSo⟩

theorem ensures_report (depth : Nat) (step : Step) :
    Ensures relation (report depth step) fun _ => True := by
  intro progress result next related ran
  unfold report at ran
  split at ran <;> cases ran <;> exact ⟨related, trivial⟩

theorem ensures_keep (depth : Nat) {expr result : Expr} (isRelated : relation result expr)
    (self : relation result result) : Ensures relation (keep depth expr result) fun _ => True := by
  intro progress done next related ran
  unfold keep at ran
  split at ran
  · cases ran
    refine ⟨fun pair member => ?_, trivial⟩
    have added : pair ∈ (result, result) :: (expr, result) :: progress.results := by
      dsimp only at member
      split at member
      · exact List.mem_cons_of_mem _ member
      · exact member
    rcases List.mem_cons.mp added with rfl | added
    · exact self
    rcases List.mem_cons.mp added with rfl | added
    · exact isRelated
    · exact related pair added
  · cases ran
    exact ⟨related, trivial⟩

/-- The runs of a list of expressions, one after the other. -/
theorem ensures_mapM {run : Expr → Run Expr} {holds : Expr → Expr → Prop} {exprs : List Expr}
    (each : ∀ expr ∈ exprs, Ensures relation (run expr) (holds · expr)) :
    Ensures relation (exprs.mapM run) (List.Forall₂ holds · exprs) := by
  induction exprs with
  | nil =>
    rw [List.mapM_nil]
    exact .pure .nil
  | cons first rest inductionHypothesis =>
    rw [List.forall_mem_cons] at each
    rw [List.mapM_cons]
    refine each.1.bind fun result isResult => ?_
    exact (inductionHypothesis each.2).bind fun results areResults => .pure (.cons isResult areResults)

theorem ensures_visitChildren (kept : Kept relation) {run : Expr → Run Expr}
    (each : ∀ expr, Ensures relation (run expr) (relation · expr)) (expr : Expr) :
    Ensures relation (visitChildren run expr) (relation · expr) :=
  (ensures_mapM fun child _ => each child).map fun _ areOperands => kept.withChildren areOperands

section

variable {evidence : Evidence} {nested : Expr → Run Expr} {expr : Expr} {makes : Expr → Expr → Prop}
  (each : ∀ inner, Ensures relation (nested inner) fun _ => True)

include each

theorem ensures_relate (lhs rhs : Expr) :
    Ensures relation (relate evidence nested lhs rhs) fun _ => True := by
  unfold relate
  split
  · exact .pure trivial
  split
  · exact .pure trivial
  split
  · exact .pure trivial
  split
  · exact .pure trivial
  next difference builds => exact (each difference).map fun _ _ => trivial

theorem ensures_applyRule (depth : Nat) {rule : Rule} (relates : Rule.Relates makes evidence expr rule) :
    Ensures relation (applyRule evidence nested depth expr rule)
      fun made => ∀ result, made = some result → makes result expr := by
  cases rule with
  | plain step apply =>
    rw [applyRule]
    cases applied : apply evidence expr with
    | none => exact .pure (by simp)
    | some result =>
      refine (ensures_report depth step).bind fun _ _ => .pure fun made equal => ?_
      cases equal
      exact relates result applied
  | counted step fits apply =>
    rw [applyRule]
    split
    next isFit =>
      refine (ensures_report depth step).bind fun _ _ => .pure fun made equal => ?_
      exact relates made isFit equal
    next => exact .pure (by simp)
  | comparing step operands conclude =>
    rw [applyRule]
    cases operands expr with
    | none => exact .pure (by simp)
    | some sides =>
      refine (ensures_relate each sides.1 sides.2).bind fun found _ => ?_
      cases concluded : conclude found expr with
      | none => exact .pure (by simp)
      | some result =>
        refine (ensures_report depth step).bind fun _ _ => .pure fun made equal => ?_
        cases equal
        exact relates found result concluded

theorem ensures_applyFirst (depth : Nat) {rules : List Rule}
    (relate : ∀ rule ∈ rules, Rule.Relates makes evidence expr rule) :
    Ensures relation (applyFirst evidence nested depth expr rules)
      fun made => ∀ result, made = some result → makes result expr := by
  induction rules with
  | nil => exact .pure (by simp)
  | cons rule rest inductionHypothesis =>
    rw [applyFirst]
    refine (ensures_applyRule each depth (relate rule List.mem_cons_self)).bind fun made isMade => ?_
    cases made with
    | none => exact inductionHypothesis fun rule member => relate rule (List.mem_cons_of_mem _ member)
    | some result => exact .pure isMade

end

/-- What holds of every next form of a node holds of the last one. -/
theorem ensures_settle {next? : Expr → Run (Option Expr)} {holds : Expr → Prop}
    (each : ∀ current, holds current → Ensures relation (next? current)
      fun made => ∀ next, made = some next → holds next)
    (remaining : Nat) (history : List Expr) {current : Expr} (isSo : holds current) :
    Ensures relation (settle next? remaining history current) holds := by
  induction remaining generalizing history current with
  | zero =>
    rw [settle]
    refine (each current isSo).bind fun made isNext => ?_
    cases made with
    | none => exact .pure isSo
    | some next =>
      dsimp only
      split
      · exact .pure isSo
      · exact .pure (isNext next rfl)
  | succ remaining inductionHypothesis =>
    rw [settle]
    refine (each current isSo).bind fun made isNext => ?_
    cases made with
    | none => exact .pure isSo
    | some next =>
      dsimp only
      split
      · exact .pure isSo
      · exact inductionHypothesis _ (isNext next rfl)

/-! ### Simplification -/

/-- A nested visit keeps nothing. -/
theorem ensures_nested (limits : Limits) (evidence : Evidence) (fuel : Nat) {depth : Nat}
    (isNested : depth ≠ 0) (expr : Expr) :
    Ensures relation (visit limits evidence fuel depth expr) fun _ => True := by
  induction fuel generalizing depth expr with
  | zero =>
    intro progress result next related ran
    cases ran
  | succ fuel inductionHypothesis =>
    have children (expr : Expr) :
        Ensures relation (visitChildren (visit limits evidence fuel depth) expr) fun _ => True :=
      (ensures_mapM fun child _ => inductionHypothesis isNested child).map fun _ _ => trivial
    have nested (inner : Expr) :
        Ensures relation (nestedVisit limits evidence fuel depth inner) fun _ => True := by
      unfold nestedVisit
      split
      · exact .pure trivial
      · exact inductionHypothesis (Nat.succ_ne_zero depth) inner
    have next (current : Expr) : Ensures relation (nextForm limits evidence fuel depth current)
        fun made => ∀ next, made = some next → True := by
      unfold nextForm
      refine (ensures_applyFirst nested depth fun rule _ => Rule.relates_true evidence current rule).bind
        fun made _ => ?_
      cases made with
      | none => exact .pure fun _ _ => trivial
      | some next => exact (children next).map fun _ _ _ _ => trivial
    have anew : Ensures relation (visitAnew limits evidence fuel depth expr) fun _ => True := by
      refine (children expr).bind fun first _ => ?_
      refine (ensures_settle (fun current _ => next current) limits.maxSteps [first] trivial).bind
        fun result _ => ?_
      rw [keep, if_neg isNested, pure_bind]
      exact .pure trivial
    intro progress result next related ran
    cases met : progress.results.lookup expr with
    | some found =>
      rw [visit_of_kept limits evidence met] at ran
      cases ran
      exact ⟨related, trivial⟩
    | none =>
      rw [visit_of_new limits evidence met] at ran
      exact anew progress result next related ran

/-- The result of a visit is in every relation to the expression that the rules keep. -/
theorem ensures_visit (kept : Kept relation) (limits : Limits) (evidence : Evidence) (fuel depth : Nat)
    (expr : Expr) : Ensures relation (visit limits evidence fuel depth expr) (relation · expr) := by
  induction fuel generalizing depth expr with
  | zero =>
    intro progress result next related ran
    cases ran
  | succ fuel inductionHypothesis =>
    have nested : ∀ inner, Ensures relation (nestedVisit limits evidence fuel depth inner)
        fun _ => True := by
      intro inner
      unfold nestedVisit
      split
      · exact .pure trivial
      · exact (inductionHypothesis (depth + 1) inner).mono fun _ _ => trivial
    have next : ∀ current, relation current expr →
        Ensures relation (nextForm limits evidence fuel depth current)
          fun made => ∀ next, made = some next → relation next expr := by
      intro current isCurrent
      unfold nextForm
      refine (ensures_applyFirst nested depth (kept.rules evidence current)).bind fun made isMade => ?_
      cases made with
      | none => exact .pure (by simp)
      | some next =>
        refine (ensures_visitChildren kept (inductionHypothesis depth) next).map ?_
        rintro result isResult form equal
        cases equal
        exact kept.trans isResult (kept.trans (isMade next rfl) isCurrent)
    have anew : Ensures relation (visitAnew limits evidence fuel depth expr) (relation · expr) := by
      refine (ensures_visitChildren kept (inductionHypothesis depth) expr).bind fun first isFirst => ?_
      refine (ensures_settle next limits.maxSteps [first] isFirst).bind fun result isResult => ?_
      exact (ensures_keep depth isResult (kept.refl result)).bind fun _ _ => .pure isResult
    intro progress result next related ran
    cases met : progress.results.lookup expr with
    | some found =>
      rw [visit_of_kept limits evidence met] at ran
      cases ran
      obtain ⟨before, after, split, -⟩ := List.lookup_eq_some_iff.mp met
      exact ⟨related, related (expr, result) (by simp [split])⟩
    | none =>
      rw [visit_of_new limits evidence met] at ran
      exact anew progress result next related ran

end IndexAlgebra.Reduction

namespace IndexAlgebra.Analyzer

open Reduction

/-- The simplified form of an expression is in every relation that the rules keep to what is
simplified. -/
theorem reduce_related {relation : Expr → Expr → Prop} (kept : Kept relation) (analyzer : Analyzer)
    (expr : Expr) : relation (analyzer.reduce expr) (analyzer.prepare expr) := by
  obtain ⟨result, progress, -, ran, reports⟩ := analyzer.exists_reduceWithSteps expr
  rw [reduce, reports]
  exact (ensures_visit kept analyzer.limits analyzer.known.evidence _ 0 (analyzer.prepare expr) {} result
    progress (fun _ member => by cases member) (ran _ le_rfl)).2

end IndexAlgebra.Analyzer
