/-
This file describes what a run of the simplifier may do, without the fuel, the limits and what the run
keeps. An expression is visited by visiting its operands and letting the node settle; a form of the node
gives way to what the first rule that applies makes of it, once the operands of that have been visited;
and a rule that compares two expressions may visit their difference. Every run that has a result has
taken such a course to it, so that what holds of every course holds of every run.
-/
import IndexAlgebra.Proofs.KeptRelations

namespace IndexAlgebra.Reduction

open IndexAlgebra.Expr

/-! ### Courses -/

/-- The relation of two expressions is that of their difference to zero, in whatever way the difference
is simplified. -/
structure ReadsDifference (lhs rhs difference : Expr) : Prop where
  isInteger : lhs.dtype.isInteger = true
  same : lhs.dtype = rhs.dtype
  builds : binary? .sub lhs rhs = some difference
  relates : ∀ evidence nested, relate evidence nested lhs rhs =
    evidence.relationToZero <$> nested difference

mutual

/-- A visit of the first expression may end with the second one. What a visit has ended with may be met
again, and is its own simplified form. -/
inductive Visits (evidence : Evidence) : Expr → Expr → Prop
  | anew {expr result : Expr} {operands : List Expr}
      (visited : VisitsAll evidence expr.children operands)
      (settles : Settles evidence (expr.withChildren operands) result) : Visits evidence expr result
  | again {expr result : Expr} (visited : Visits evidence expr result) : Visits evidence result result

/-- Visits of the first expressions may end with the second ones. -/
inductive VisitsAll (evidence : Evidence) : List Expr → List Expr → Prop
  | nil : VisitsAll evidence [] []
  | cons {expr result : Expr} {exprs results : List Expr} (first : Visits evidence expr result)
      (rest : VisitsAll evidence exprs results) : VisitsAll evidence (expr :: exprs) (result :: results)

/-- A node of the first form may settle with the second one. -/
inductive Settles (evidence : Evidence) : Expr → Expr → Prop
  | done {form : Expr} : Settles evidence form form
  | step {form next result : Expr} {rule : Rule} {operands : List Expr}
      (applies : Applies evidence form (rulesFor form) rule next)
      (visited : VisitsAll evidence next.children operands)
      (settles : Settles evidence (next.withChildren operands) result) : Settles evidence form result

/-- The first of the rules to apply to the form may be this one, and make this of it. -/
inductive Applies (evidence : Evidence) : Expr → List Rule → Rule → Expr → Prop
  | here {form next : Expr} {rule : Rule} {rest : List Rule}
      (makes : Makes evidence form rule (some next)) : Applies evidence form (rule :: rest) rule next
  | later {form next : Expr} {skipped rule : Rule} {rest : List Rule}
      (makes : Makes evidence form skipped none) (applies : Applies evidence form rest rule next) :
      Applies evidence form (skipped :: rest) rule next

/-- The rule may make this of the form, or nothing. -/
inductive Makes (evidence : Evidence) : Expr → Rule → Option Expr → Prop
  | plain {form : Expr} {step : Step} {apply : Evidence → Expr → Option Expr} {made : Option Expr}
      (makes : apply evidence form = made) : Makes evidence form (.plain step apply) made
  | counted {form : Expr} {step : Step} {fits : Expr → Bool} {apply : Expr → Option Expr}
      {made : Option Expr} (makes : (if fits form then apply form else none) = made) :
      Makes evidence form (.counted step fits apply) made
  | apart {form : Expr} {step : Step} {operands : Expr → Option (Expr × Expr)}
      {conclude : Relation → Expr → Option Expr} (noOperands : operands form = none) :
      Makes evidence form (.comparing step operands conclude) none
  | comparing {form lhs rhs : Expr} {step : Step} {operands : Expr → Option (Expr × Expr)}
      {conclude : Relation → Expr → Option Expr} {relation : Relation} {made : Option Expr}
      (areOperands : operands form = some (lhs, rhs)) (finds : Finds evidence lhs rhs relation)
      (concludes : conclude relation form = made) :
      Makes evidence form (.comparing step operands conclude) made

/-- The two expressions may be found to be in the relation. -/
inductive Finds (evidence : Evidence) : Expr → Expr → Relation → Prop
  | outright {lhs rhs : Expr} {relation : Relation}
      (relates : ∀ nested, relate evidence nested lhs rhs = pure relation) :
      Finds evidence lhs rhs relation
  | unchanged {lhs rhs difference : Expr} (reads : ReadsDifference lhs rhs difference) :
      Finds evidence lhs rhs (evidence.relationToZero difference)
  | simplified {lhs rhs difference simplified : Expr}
      (reads : ReadsDifference lhs rhs difference)
      (visited : Visits evidence difference simplified) :
      Finds evidence lhs rhs (evidence.relationToZero simplified)

end

variable {evidence : Evidence} {expr form next : Expr} {rule : Rule} {rules : List Rule}

theorem visitsAll_iff {exprs results : List Expr} : VisitsAll evidence exprs results ↔
    List.Forall₂ (fun result expr => Visits evidence expr result) results exprs := by
  constructor
  · intro visited
    induction exprs generalizing results with
    | nil =>
      cases visited
      exact .nil
    | cons expr exprs inductionHypothesis =>
      cases visited with
      | cons first rest => exact .cons first (inductionHypothesis rest)
  · intro visited
    induction visited with
    | nil => exact .nil
    | cons first _ inductionHypothesis => exact .cons first inductionHypothesis

theorem Applies.mem (applies : Applies evidence form rules rule next) : rule ∈ rules := by
  induction rules with
  | nil => cases applies
  | cons first rest inductionHypothesis =>
    cases applies with
    | here => exact List.mem_cons_self
    | later _ applies => exact List.mem_cons_of_mem _ (inductionHypothesis applies)

/-- A rule that finds nothing to do in a form makes nothing of it. -/
theorem Makes.eq_none_of_ignores {made : Option Expr} (makes : Makes evidence form rule made)
    (ignores : Rule.Ignores evidence form rule) : made = none := by
  cases makes with
  | plain makes => exact makes.symm.trans ignores
  | counted makes =>
    rw [Rule.Ignores] at ignores
    simpa [ignores] using makes.symm
  | apart => rfl
  | comparing areOperands => cases areOperands.symm.trans ignores

/-- Rules that find nothing to do in a form are passed over. -/
theorem Applies.of_ignore {ignored : List Rule}
    (applies : Applies evidence form (ignored ++ rules) rule next)
    (ignore : ∀ rule ∈ ignored, Rule.Ignores evidence form rule) :
    Applies evidence form rules rule next := by
  induction ignored with
  | nil => exact applies
  | cons first later inductionHypothesis =>
    rw [List.forall_mem_cons] at ignore
    cases applies with
    | here makes => cases makes.eq_none_of_ignores ignore.1
    | later _ applies => exact inductionHypothesis applies ignore.2

theorem makes_none_of_ignores (ignores : Rule.Ignores evidence form rule) :
    Makes evidence form rule none := by
  cases rule with
  | plain => exact .plain ignores
  | counted => exact .counted (if_neg (by rw [Rule.Ignores] at ignores; simp [ignores]))
  | comparing => exact .apart ignores

/-- Rules that find nothing to do in a form may stand before the one that applies. -/
theorem Applies.append {ignored : List Rule} (ignore : ∀ rule ∈ ignored, Rule.Ignores evidence form rule)
    (applies : Applies evidence form rules rule next) :
    Applies evidence form (ignored ++ rules) rule next := by
  induction ignored with
  | nil => exact applies
  | cons first others inductionHypothesis =>
    rw [List.forall_mem_cons] at ignore
    exact .later (makes_none_of_ignores ignore.1) (inductionHypothesis ignore.2)

theorem Applies.eq_of_plain {step : Step} {apply : Evidence → Expr → Option Expr} {made : Expr}
    (applies : Applies evidence form (.plain step apply :: rules) rule next)
    (isMade : apply evidence form = some made) : rule = .plain step apply ∧ next = made := by
  cases applies with
  | here makes =>
    cases makes with
    | plain makes => exact ⟨rfl, Option.some.inj (makes.symm.trans isMade)⟩
  | later makes _ =>
    cases makes with
    | plain makes => cases makes.symm.trans isMade

theorem Applies.false_of_ignore (applies : Applies evidence form rules rule next)
    (ignore : ∀ rule ∈ rules, Rule.Ignores evidence form rule) : False := by
  rw [← List.append_nil rules] at applies
  cases applies.of_ignore ignore

/-! ### Expressions that are left alone -/

/-- No rule applies to the expression or to a part of it. -/
def Undisturbed (evidence : Evidence) (expr : Expr) : Prop :=
  ∀ node ∈ expr.postOrder, ∀ rule next, ¬Applies evidence node (rulesFor node) rule next

theorem undisturbed_of_ignore
    (ignore : ∀ node ∈ expr.postOrder, ∀ rule ∈ rulesFor node, Rule.Ignores evidence node rule) :
    Undisturbed evidence expr :=
  fun node isNode _ _ applies => applies.false_of_ignore (ignore node isNode)

theorem Undisturbed.not_applies (undisturbed : Undisturbed evidence expr) :
    ¬Applies evidence expr (rulesFor expr) rule next :=
  undisturbed expr expr.self_mem_postOrder rule next

theorem Undisturbed.child (undisturbed : Undisturbed evidence expr) {child : Expr}
    (isChild : child ∈ expr.children) : Undisturbed evidence child :=
  fun node isNode => undisturbed node (mem_postOrder.mpr (.inr ⟨child, isChild, isNode⟩))

theorem VisitsAll.eq_of_each {exprs results : List Expr} (visited : VisitsAll evidence exprs results)
    (each : ∀ expr ∈ exprs, ∀ result, Visits evidence expr result → result = expr) :
    results = exprs := by
  induction exprs generalizing results with
  | nil =>
    cases visited
    rfl
  | cons first others inductionHypothesis =>
    rw [List.forall_mem_cons] at each
    cases visited with
    | cons isFirst others => rw [each.1 _ isFirst, inductionHypothesis others each.2]

/-- A visit of an expression that is left alone ends with it. -/
theorem Visits.eq_of_undisturbed {result : Expr} (visited : Visits evidence expr result)
    (undisturbed : Undisturbed evidence expr) : result = expr := by
  induction expr using childrenInduction generalizing result with
  | step expr inductionHypothesis =>
    cases visited with
    | again => rfl
    | anew visited settles =>
      have same := visited.eq_of_each fun child isChild result visited =>
        inductionHypothesis child isChild visited (undisturbed.child isChild)
      rw [same, expr.withChildren_children] at settles
      cases settles with
      | done => rfl
      | step applies => cases undisturbed.not_applies applies

theorem VisitsAll.eq_of_undisturbed {exprs results : List Expr} (visited : VisitsAll evidence exprs results)
    (undisturbed : ∀ expr ∈ exprs, Undisturbed evidence expr) : results = exprs :=
  visited.eq_of_each fun expr isExpr _ visited => visited.eq_of_undisturbed (undisturbed expr isExpr)

/-- A visit may end where it began, since every node may settle at once. -/
theorem visits_self (evidence : Evidence) (expr : Expr) : Visits evidence expr expr := by
  induction expr using childrenInduction with
  | step expr inductionHypothesis =>
    have visited : VisitsAll evidence expr.children expr.children :=
      visitsAll_iff.mpr (List.forall₂_same.mpr inductionHypothesis)
    exact .anew visited (by rw [expr.withChildren_children]; exact .done)

/-! ### Runs take courses -/

/-- Two expressions are related outright, or by their difference. -/
theorem relates_or_readsDifference (evidence : Evidence) (lhs rhs : Expr) :
    (∃ relation, ∀ nested, relate evidence nested lhs rhs = pure relation) ∨
      ∃ difference, ReadsDifference lhs rhs difference := by
  by_cases apart : (!lhs.dtype.isInteger || decide (lhs.dtype ≠ rhs.dtype)) = true
  · exact .inl ⟨.unknown, fun nested => by rw [relate, if_pos apart]⟩
  by_cases equal : lhs = rhs
  · exact .inl ⟨.equal, fun nested => by rw [relate, if_neg apart, if_pos equal]⟩
  obtain ⟨isInteger, same⟩ : lhs.dtype.isInteger = true ∧ lhs.dtype = rhs.dtype := by simpa using apart
  have unfolded (evidence : Evidence) (nested : Expr → Run Expr) :=
    relate.eq_def evidence nested lhs rhs
  simp only [if_neg apart, if_neg equal] at unfolded
  split at unfolded
  next left right => exact .inl ⟨_, unfolded evidence⟩
  next =>
    cases builds : binary? .sub lhs rhs with
    | none => exact .inl ⟨.unknown, fun nested => by rw [unfolded, builds]⟩
    | some difference =>
      exact .inr ⟨difference, isInteger, same, builds, fun evidence nested => by rw [unfolded, builds]⟩

/-- Everything that a run does or keeps is done on some course. -/
abbrev OnCourse (evidence : Evidence) {α : Type} (run : Run α) (holds : α → Prop) : Prop :=
  Ensures (fun result expr => Visits evidence expr result) run holds

section

variable {nested : Expr → Run Expr}
  (each : ∀ inner, OnCourse evidence (nested inner) fun result =>
    result = inner ∨ Visits evidence inner result)

include each

theorem onCourse_relate (lhs rhs : Expr) :
    OnCourse evidence (relate evidence nested lhs rhs) (Finds evidence lhs rhs) := by
  rcases relates_or_readsDifference evidence lhs rhs with ⟨relation, relates⟩ | ⟨difference, reads⟩
  · rw [relates]
    exact .pure (.outright relates)
  · rw [reads.relates]
    refine (each difference).map fun result ended => ?_
    rcases ended with rfl | visited
    · exact .unchanged reads
    · exact .simplified reads visited

theorem onCourse_applyRule (depth : Nat) (rule : Rule) :
    OnCourse evidence (applyRule evidence nested depth form rule) (Makes evidence form rule) := by
  cases rule with
  | plain step apply =>
    rw [applyRule]
    cases applied : apply evidence form with
    | none => exact .pure (.plain applied)
    | some result => exact (ensures_report depth step).bind fun _ _ => .pure (.plain applied)
  | counted step fits apply =>
    rw [applyRule]
    split
    next isFit => exact (ensures_report depth step).bind fun _ _ => .pure (.counted (if_pos isFit))
    next notFit => exact .pure (.counted (if_neg notFit))
  | comparing step operands conclude =>
    rw [applyRule]
    cases areOperands : operands form with
    | none => exact .pure (.apart areOperands)
    | some sides =>
      refine (onCourse_relate each sides.1 sides.2).bind fun relation finds => ?_
      cases concluded : conclude relation form with
      | none => exact .pure (.comparing areOperands finds concluded)
      | some result =>
        exact (ensures_report depth step).bind fun _ _ => .pure (.comparing areOperands finds concluded)

theorem onCourse_applyFirst (depth : Nat) (rules : List Rule) :
    OnCourse evidence (applyFirst evidence nested depth form rules)
      fun made => ∀ next, made = some next → ∃ rule, Applies evidence form rules rule next := by
  induction rules with
  | nil => exact .pure (by simp)
  | cons rule rest inductionHypothesis =>
    rw [applyFirst]
    refine (onCourse_applyRule each depth rule).bind fun made makes => ?_
    cases made with
    | some result =>
      refine .pure fun next equal => ?_
      cases equal
      exact ⟨rule, .here makes⟩
    | none =>
      refine inductionHypothesis.mono fun made isMade next equal => ?_
      obtain ⟨applied, applies⟩ := isMade next equal
      exact ⟨applied, .later makes applies⟩

end

/-- What a form becomes settles where the form does. -/
theorem onCourse_settle {next? : Expr → Run (Option Expr)}
    (each : ∀ current, OnCourse evidence (next? current)
      fun made => ∀ next, made = some next → ∀ result, Settles evidence next result →
        Settles evidence current result)
    (remaining : Nat) (history : List Expr) (current : Expr) :
    OnCourse evidence (settle next? remaining history current) (Settles evidence current) := by
  induction remaining generalizing history current with
  | zero =>
    rw [settle]
    refine (each current).bind fun made follows => ?_
    cases made with
    | none => exact .pure .done
    | some next =>
      dsimp only
      split
      · exact .pure .done
      · exact .pure (follows next rfl next .done)
  | succ remaining inductionHypothesis =>
    rw [settle]
    refine (each current).bind fun made follows => ?_
    cases made with
    | none => exact .pure .done
    | some next =>
      dsimp only
      split
      · exact .pure .done
      · exact (inductionHypothesis _ next).mono (follows next rfl)

/-- The result of a visit is one that a visit of the expression may end with. -/
theorem onCourse_visit (limits : Limits) (evidence : Evidence) (fuel depth : Nat) (expr : Expr) :
    OnCourse evidence (visit limits evidence fuel depth expr) (Visits evidence expr) := by
  induction fuel generalizing depth expr with
  | zero =>
    intro progress result next related ran
    cases ran
  | succ fuel inductionHypothesis =>
    have nested (inner : Expr) : OnCourse evidence (nestedVisit limits evidence fuel depth inner)
        fun result => result = inner ∨ Visits evidence inner result := by
      unfold nestedVisit
      split
      · exact .pure (.inl rfl)
      · exact (inductionHypothesis (depth + 1) inner).mono fun _ => .inr
    have children (expr : Expr) : OnCourse evidence
        (visitChildren (visit limits evidence fuel depth) expr)
        fun form => ∃ operands, VisitsAll evidence expr.children operands ∧
          form = expr.withChildren operands :=
      (ensures_mapM fun child _ => inductionHypothesis depth child).map fun operands visited =>
        ⟨operands, visitsAll_iff.mpr visited, rfl⟩
    have next (current : Expr) : OnCourse evidence (nextForm limits evidence fuel depth current)
        fun made => ∀ next, made = some next → ∀ result, Settles evidence next result →
          Settles evidence current result := by
      unfold nextForm
      refine (onCourse_applyFirst nested depth (rulesFor current)).bind fun made isMade => ?_
      cases made with
      | none => exact .pure (by simp)
      | some next =>
        obtain ⟨rule, applies⟩ := isMade next rfl
        refine (children next).map ?_
        rintro _ ⟨operands, visited, rfl⟩ form equal result settles
        cases equal
        exact .step applies visited settles
    have anew : OnCourse evidence (visitAnew limits evidence fuel depth expr)
      (Visits evidence expr) := by
      refine (children expr).bind ?_
      rintro _ ⟨operands, visited, rfl⟩
      refine (onCourse_settle next limits.maxSteps _ _).bind fun result settles => ?_
      have visits : Visits evidence expr result := .anew visited settles
      have keeps : OnCourse evidence (keep depth expr result) fun _ => True :=
        ensures_keep depth visits (.again visits)
      exact keeps.bind fun _ _ => .pure visits
    intro progress result next related ran
    cases met : progress.results.lookup expr with
    | some found =>
      rw [visit_of_kept limits evidence met] at ran
      cases ran
      obtain ⟨before, after, split, -⟩ := List.lookup_eq_some_iff.mp met
      exact ⟨related, related (expr, result) (by simp [split])⟩
    | none =>
      rw [visit_of_new limits evidence met] at ran
      exact anew progress result next related ran

theorem onCourse_nestedVisit (limits : Limits) (evidence : Evidence) (fuel depth : Nat) (inner : Expr) :
    OnCourse evidence (nestedVisit limits evidence fuel depth inner)
      fun result => result = inner ∨ Visits evidence inner result := by
  unfold nestedVisit
  split
  · exact .pure (.inl rfl)
  · exact (onCourse_visit limits evidence fuel (depth + 1) inner).mono fun _ => .inr

end IndexAlgebra.Reduction

namespace IndexAlgebra.Analyzer

open Reduction

/-- The simplified form of an expression is what a visit may end with. -/
theorem visits_reduce (analyzer : Analyzer) (expr : Expr) :
    Visits analyzer.known.evidence (analyzer.prepare expr) (analyzer.reduce expr) := by
  obtain ⟨result, progress, -, ran, reports⟩ := analyzer.exists_reduceWithSteps expr
  rw [reduce, reports]
  exact (onCourse_visit analyzer.limits analyzer.known.evidence _ 0 (analyzer.prepare expr) {} result
    progress (fun _ member => by cases member) (ran _ le_rfl)).2

end IndexAlgebra.Analyzer
