/-
This file proves that the simplifier terminates. A rule makes nothing of a node that is heavier than
the node, and operands are lighter than the node they belong to. So the load of what is visited falls
with every step into operands, of the expression as well as of what a rule has made of it, and a proof
that two expressions are in a relation visits something no heavier, but one level deeper. The fuel
that a simplification is given is enough, and more fuel gives the same result.
-/
import IndexAlgebra.Proofs.Fits.Rules

namespace IndexAlgebra.Reduction

open IndexAlgebra.Expr

variable {α β : Type}

/-! ### Runs that have a result -/

/-- Every simplified form that is kept may stand in for the expression that it is kept for. -/
def Progress.Sound (progress : Progress) : Prop :=
  ∀ pair ∈ progress.results, StandsIn pair.2 pair.1

/-- The run has a result, of which the condition holds, and leaves what is kept sound. -/
def Gives (run : Run α) (holds : α → Prop) : Prop :=
  ∀ progress : Progress, progress.Sound → ∃ result next,
    run.run progress = some (result, next) ∧ next.Sound ∧ holds result

theorem Gives.pure {holds : α → Prop} {result : α} (isSo : holds result) :
    Gives (Pure.pure result) holds :=
  fun progress sound => ⟨result, progress, rfl, sound, isSo⟩

theorem Gives.bind {run : Run α} {next : α → Run β} {middle : α → Prop} {holds : β → Prop}
    (first : Gives run middle) (rest : ∀ result, middle result → Gives (next result) holds) :
    Gives (run >>= next) holds := by
  intro progress sound
  obtain ⟨result, between, ran, soundBetween, isSo⟩ := first progress sound
  obtain ⟨final, last, ranNext, soundLast, isSoLast⟩ := rest result isSo between soundBetween
  refine ⟨final, last, ?_, soundLast, isSoLast⟩
  rw [StateT.run_bind, ran]
  exact ranNext

theorem Gives.map {run : Run α} {change : α → β} {middle : α → Prop} {holds : β → Prop}
    (first : Gives run middle) (implied : ∀ result, middle result → holds (change result)) :
    Gives (change <$> run) holds := by
  rw [← bind_pure_comp]
  exact first.bind fun result isSo => .pure (implied result isSo)

theorem Gives.mono {run : Run α} {holds holds' : α → Prop} (gives : Gives run holds)
    (implied : ∀ result, holds result → holds' result) : Gives run holds' := by
  intro progress sound
  obtain ⟨result, next, ran, soundNext, isSo⟩ := gives progress sound
  exact ⟨result, next, ran, soundNext, implied result isSo⟩

theorem gives_report (depth : Nat) (step : Step) : Gives (report depth step) fun _ => True := by
  intro progress sound
  unfold report
  split
  · exact ⟨(), _, rfl, sound, trivial⟩
  · exact ⟨(), _, rfl, sound, trivial⟩

theorem gives_keep (depth : Nat) {expr result : Expr} (stands : StandsIn result expr) :
    Gives (keep depth expr result) fun _ => True := by
  intro progress sound
  unfold keep
  split
  · refine ⟨(), _, rfl, fun pair member => ?_, trivial⟩
    have kept : pair ∈ (result, result) :: (expr, result) :: progress.results := by
      dsimp only at member
      split at member
      · exact List.mem_cons_of_mem _ member
      · exact member
    rcases List.mem_cons.mp kept with rfl | kept
    · exact ⟨.refl result, fun _ => rfl⟩
    rcases List.mem_cons.mp kept with rfl | kept
    · exact stands
    · exact sound pair kept
  · exact ⟨(), _, rfl, sound, trivial⟩

/-- The runs of a list of expressions, one after the other. -/
theorem gives_mapM {run : Expr → Run Expr} {exprs : List Expr}
    (each : ∀ expr ∈ exprs, Gives (run expr) (StandsIn · expr)) :
    Gives (exprs.mapM run) (List.Forall₂ StandsIn · exprs) := by
  induction exprs with
  | nil =>
    rw [List.mapM_nil]
    exact .pure .nil
  | cons first rest inductionHypothesis =>
    rw [List.mapM_cons]
    refine (each first List.mem_cons_self).bind fun result isResult => ?_
    refine (inductionHypothesis fun expr member => each expr (List.mem_cons_of_mem _ member)).bind
      fun results areResults => ?_
    exact .pure (.cons isResult areResults)

theorem gives_visitChildren {run : Expr → Run Expr} {expr : Expr}
    (each : ∀ child ∈ expr.children, Gives (run child) (StandsIn · child)) :
    Gives (visitChildren run expr) fun result => ∃ operands,
      List.Forall₂ StandsIn operands expr.children ∧ result = expr.withChildren operands :=
  (gives_mapM each).map fun operands stand => ⟨operands, stand, rfl⟩

/-! ### Rules -/

section

variable {evidence : Evidence} {nested : Expr → Run Expr} {expr : Expr}

/-- A comparison of two expressions has a result if their difference has a simplified form. -/
theorem gives_relate {lhs rhs : Expr} (gives : ∀ difference,
    Expr.binary? .sub lhs rhs = some difference → Gives (nested difference) fun _ => True) :
    Gives (relate evidence nested lhs rhs) fun _ => True := by
  unfold relate
  split
  · exact .pure trivial
  split
  · exact .pure trivial
  split
  · exact .pure trivial
  split
  · exact .pure trivial
  next difference builds => exact (gives difference builds).map fun _ _ => trivial

/-- What a rule that fits makes of a node stands for the node. -/
theorem gives_applyRule (depth : Nat) (gives : ∀ inner,
    (∀ sizes, inner.load sizes ≤ expr.load sizes) → Gives (nested inner) fun _ => True)
    {rule : Rule} (fits : rule.Fits evidence expr) :
    Gives (applyRule evidence nested depth expr rule)
      fun made => ∀ result, made = some result → result.StandsFor expr := by
  cases rule with
  | plain step apply =>
    rw [applyRule]
    cases applied : apply evidence expr with
    | none => exact .pure (by simp)
    | some result =>
      refine (gives_report depth step).bind fun _ _ => .pure fun made equal => ?_
      cases equal
      exact fits result applied
  | counted step isFit apply =>
    rw [applyRule]
    split
    next isFit =>
      refine (gives_report depth step).bind fun _ _ => .pure fun made equal => ?_
      exact fits made isFit equal
    next => exact .pure (by simp)
  | comparing step operands conclude =>
    rw [applyRule]
    cases found : operands expr with
    | none => exact .pure (by simp)
    | some sides =>
      obtain ⟨lhs, rhs⟩ := sides
      refine (gives_relate fun difference builds =>
        gives difference (fits.1 lhs rhs difference found builds)).bind fun relation _ => ?_
      cases concluded : conclude relation expr with
      | none => exact .pure (by simp)
      | some result =>
        refine (gives_report depth step).bind fun _ _ => .pure fun made equal => ?_
        cases equal
        exact fits.2 relation result concluded

theorem gives_applyFirst (depth : Nat) (gives : ∀ inner,
    (∀ sizes, inner.load sizes ≤ expr.load sizes) → Gives (nested inner) fun _ => True)
    {rules : List Rule} (fit : ∀ rule ∈ rules, rule.Fits evidence expr) :
    Gives (applyFirst evidence nested depth expr rules)
      fun made => ∀ result, made = some result → result.StandsFor expr := by
  induction rules with
  | nil => exact .pure (by simp)
  | cons rule rest inductionHypothesis =>
    rw [applyFirst]
    refine (gives_applyRule depth gives (fit rule List.mem_cons_self)).bind fun made stands => ?_
    cases made with
    | none => exact inductionHypothesis fun rule member => fit rule (List.mem_cons_of_mem _ member)
    | some result => exact .pure stands

theorem applyRule_of_ignores {depth : Nat} {rule : Rule} (ignores : Rule.Ignores evidence expr rule) :
    applyRule evidence nested depth expr rule = pure none := by
  cases rule <;> simp only [Rule.Ignores] at ignores <;> simp [applyRule, ignores]

/-- Rules that find nothing to do are passed over. -/
theorem applyFirst_append_of_ignore (depth : Nat) {ignored : List Rule} (rest : List Rule)
    (ignore : ∀ rule ∈ ignored, Rule.Ignores evidence expr rule) :
    applyFirst evidence nested depth expr (ignored ++ rest) =
      applyFirst evidence nested depth expr rest := by
  induction ignored with
  | nil => rfl
  | cons rule later inductionHypothesis =>
    rw [List.cons_append, applyFirst, applyRule_of_ignores (ignore rule List.mem_cons_self), pure_bind]
    exact inductionHypothesis fun rule member => ignore rule (List.mem_cons_of_mem _ member)

/-- Rules that find nothing to do make nothing. -/
theorem applyFirst_of_ignore (depth : Nat) {rules : List Rule}
    (ignore : ∀ rule ∈ rules, Rule.Ignores evidence expr rule) :
    applyFirst evidence nested depth expr rules = pure none := by
  rw [← List.append_nil rules, applyFirst_append_of_ignore depth [] ignore]
  rfl

end

/-- The forms that a node takes all stand in for it. -/
theorem gives_settle {next? : Expr → Run (Option Expr)} {expr : Expr}
    (gives : ∀ current, StandsIn current expr →
      Gives (next? current) fun made => ∀ next, made = some next → StandsIn next expr)
    (remaining : Nat) (history : List Expr) {current : Expr} (stands : StandsIn current expr) :
    Gives (settle next? remaining history current) (StandsIn · expr) := by
  induction remaining generalizing history current with
  | zero =>
    rw [settle]
    refine (gives current stands).bind fun made isNext => ?_
    cases made with
    | none => exact .pure stands
    | some next =>
      dsimp only
      split
      · exact .pure stands
      · exact .pure (isNext next rfl)
  | succ remaining inductionHypothesis =>
    rw [settle]
    refine (gives current stands).bind fun made isNext => ?_
    cases made with
    | none => exact .pure stands
    | some next =>
      dsimp only
      split
      · exact .pure stands
      · exact inductionHypothesis _ (isNext next rfl)

/-! ### The whole run -/

/-- What the fuel of a visit is spent on: the load of an expression, where constants count
nothing. -/
def heft (sizes : Variable → Nat) (expr : Expr) : Nat := if expr.isConst then 0 else expr.load sizes

theorem heft_le (sizes : Variable → Nat) (expr : Expr) : heft sizes expr ≤ expr.load sizes := by
  unfold heft
  split
  · exact Nat.zero_le _
  · exact le_rfl

theorem isConst_of_mem_children {expr child : Expr} (member : child ∈ expr.children) :
    expr.isConst = false := by
  cases expr <;> first | rfl | cases member

/-- Operands are lighter than the node they belong to. -/
theorem exists_heft_lt {expr child : Expr} (sizes : Variable → Nat) (member : child ∈ expr.children) :
    ∃ inner, heft inner child < expr.load sizes := by
  cases isConst : child.isConst with
  | true =>
    refine ⟨sizes, ?_⟩
    rw [heft, if_pos isConst]
    exact load_pos_of_not_isConst sizes (isConst_of_mem_children member)
  | false =>
    obtain ⟨inner, lighter⟩ := exists_load_child_lt sizes member isConst
    exact ⟨inner, (heft_le inner child).trans_lt lighter⟩

/-- A constant, or a vector of one constant, stays as it is when its operands do. -/
theorem withChildren_of_isFrozen {expr : Expr} {operands : List Expr} (frozen : expr.isFrozen = true)
    (stand : List.Forall₂ StandsIn operands expr.children) : expr.withChildren operands = expr := by
  cases expr with
  | broadcast dtype value lanes =>
    simp only [isFrozen, Bool.and_eq_true] at frozen
    simp only [children, List.forall₂_cons_right_iff, List.forall₂_nil_right_iff] at stand
    obtain ⟨value', _, ⟨-, same⟩, rfl, rfl⟩ := stand
    rw [same (isFrozen_of_isConst frozen.2)]
    rfl
  | intConst | floatConst | boolConst => rfl
  | _ => cases frozen

variable (limits : Limits) (evidence : Evidence)

/-- The simplified form of an expression in a proof about a node. -/
def nestedVisit (fuel depth : Nat) (inner : Expr) : Run Expr :=
  if limits.maxRecursionDepth ≤ depth + 1 then pure inner
  else visit limits evidence fuel (depth + 1) inner

/-- The next form of a node, whose operands are visited in turn. -/
def nextForm (fuel depth : Nat) (current : Expr) : Run (Option Expr) := do
  match ← applyFirst evidence (nestedVisit limits evidence fuel depth) depth current
      (rulesFor current) with
  | none => return none
  | some next => some <$> visitChildren (visit limits evidence fuel depth) next

/-- The visit of an expression that has not been met before. -/
def visitAnew (fuel depth : Nat) (expr : Expr) : Run Expr := do
  let first ← visitChildren (visit limits evidence fuel depth) expr
  let result ← settle (nextForm limits evidence fuel depth) limits.maxSteps [first] first
  keep depth expr result
  return result

theorem visit_succ (fuel depth : Nat) (expr : Expr) :
    visit limits evidence (fuel + 1) depth expr = (do
      match (← get).results.lookup expr with
      | some result => return result
      | none => visitAnew limits evidence fuel depth expr) := rfl

theorem visit_of_kept {fuel depth : Nat} {expr result : Expr} {progress : Progress}
    (met : progress.results.lookup expr = some result) :
    (visit limits evidence (fuel + 1) depth expr).run progress = some (result, progress) := by
  rw [visit_succ, StateT.run_bind, StateT.run_get, pure_bind, met]
  rfl

theorem visit_of_new {fuel depth : Nat} {expr : Expr} {progress : Progress}
    (new : progress.results.lookup expr = none) :
    (visit limits evidence (fuel + 1) depth expr).run progress =
      (visitAnew limits evidence fuel depth expr).run progress := by
  rw [visit_succ, StateT.run_bind, StateT.run_get, pure_bind, new]

/-- The fuel is enough to visit the expression at the depth. -/
def Suffices (fuel depth : Nat) (expr : Expr) : Prop :=
  ∃ sizes, heft sizes expr + (limits.maxRecursionDepth - depth) < fuel

variable {limits evidence} {fuel depth : Nat} {expr : Expr}

theorem suffices_child (enough : Suffices limits (fuel + 1) depth expr) {child : Expr}
    (member : child ∈ expr.children) : Suffices limits fuel depth child := by
  obtain ⟨sizes, enough⟩ := enough
  obtain ⟨childSizes, lighter⟩ := exists_heft_lt sizes member
  rw [heft, if_neg (by simp [isConst_of_mem_children member])] at enough
  exact ⟨childSizes, by omega⟩

/-- Where the operands of what stands for a node can be visited, the next form of a node is found. -/
theorem gives_nextForm (inner : ∀ depth expr, Suffices limits fuel depth expr →
      Gives (visit limits evidence fuel depth expr) (StandsIn · expr))
    (enough : Suffices limits (fuel + 1) depth expr) {current : Expr} (stands : StandsIn current expr) :
    Gives (nextForm limits evidence fuel depth current)
      fun made => ∀ next, made = some next → StandsIn next expr := by
  unfold nextForm
  cases frozen : expr.isFrozen with
  | true =>
    rw [stands.2 frozen, applyFirst_of_ignore depth (rulesFor_ignore evidence frozen), pure_bind]
    exact .pure (by simp)
  | false =>
    have notConst : expr.isConst = false := by
      by_contra isConst
      simp [isFrozen_of_isConst (by simpa using isConst)] at frozen
    obtain ⟨sizes, enough⟩ := enough
    rw [heft, if_neg (by simp [notConst])] at enough
    have light := stands.1.lighter sizes
    refine (gives_applyFirst depth (fun difference lighter => ?_) (rulesFor_fit evidence current)).bind
      fun made isMade => ?_
    · unfold nestedVisit
      split
      · exact .pure trivial
      · have weighs := (heft_le sizes difference).trans (lighter sizes)
        exact (inner (depth + 1) difference ⟨sizes, by omega⟩).mono fun _ _ => trivial
    · cases made with
      | none => exact .pure (by simp)
      | some next =>
        have isNext := (isMade next rfl).trans stands.1
        refine (gives_visitChildren fun child member => inner depth child ?_).map ?_
        · obtain ⟨childSizes, lighter⟩ := exists_heft_lt sizes member
          have weighs := isNext.lighter sizes
          exact ⟨childSizes, by omega⟩
        · rintro result ⟨operands, stand, rfl⟩ form equal
          cases equal
          exact ⟨(StandsFor.withChildren stand).trans isNext, fun isFrozen => by simp [frozen] at isFrozen⟩

/-- Where the operands of a node can be visited, the form with simplified operands is found. -/
theorem gives_firstForm (inner : ∀ depth expr, Suffices limits fuel depth expr →
      Gives (visit limits evidence fuel depth expr) (StandsIn · expr))
    (enough : Suffices limits (fuel + 1) depth expr) :
    Gives (visitChildren (visit limits evidence fuel depth) expr) (StandsIn · expr) := by
  refine (gives_visitChildren fun child member =>
    inner depth child (suffices_child enough member)).mono ?_
  rintro _ ⟨operands, stand, rfl⟩
  exact ⟨StandsFor.withChildren stand, fun frozen => withChildren_of_isFrozen frozen stand⟩

/-- A visit with enough fuel has a result, which may stand in for the expression. -/
theorem gives_visit (limits : Limits) (evidence : Evidence) (fuel depth : Nat) (expr : Expr)
    (enough : Suffices limits fuel depth expr) :
    Gives (visit limits evidence fuel depth expr) (StandsIn · expr) := by
  induction fuel generalizing depth expr with
  | zero =>
    obtain ⟨sizes, absurd⟩ := enough
    exact (Nat.not_lt_zero _ absurd).elim
  | succ fuel inductionHypothesis =>
    intro progress sound
    cases met : progress.results.lookup expr with
    | some result =>
      rw [visit_of_kept limits evidence met]
      obtain ⟨before, after, split, -⟩ := List.lookup_eq_some_iff.mp met
      exact ⟨result, progress, rfl, sound, sound (expr, result) (by simp [split])⟩
    | none =>
      rw [visit_of_new limits evidence met]
      have anew : Gives (visitAnew limits evidence fuel depth expr) (StandsIn · expr) := by
        refine (gives_firstForm inductionHypothesis enough).bind fun first isFirst => ?_
        refine (gives_settle (fun current stands => gives_nextForm inductionHypothesis enough stands) _ _
          isFirst).bind fun result isResult => ?_
        exact (gives_keep depth isResult).bind fun _ _ => .pure isResult
      exact anew progress sound

/-! ### More fuel -/

/-- The second run has every result that the first one has. -/
def Extends (run extended : Run α) : Prop :=
  ∀ progress found, run.run progress = some found → extended.run progress = some found

theorem Extends.refl (run : Run α) : Extends run run := fun _ _ ran => ran

theorem Extends.bind {run extended : Run α} {next next' : α → Run β} (first : Extends run extended)
    (rest : ∀ result, Extends (next result) (next' result)) :
    Extends (run >>= next) (extended >>= next') := by
  intro progress found ran
  rw [StateT.run_bind] at ran ⊢
  obtain ⟨⟨result, between⟩, ranFirst, ranRest⟩ := Option.bind_eq_some_iff.mp ran
  rw [first progress _ ranFirst]
  exact rest result between found ranRest

theorem Extends.map {run extended : Run α} (change : α → β) (first : Extends run extended) :
    Extends (change <$> run) (change <$> extended) := by
  rw [← bind_pure_comp, ← bind_pure_comp]
  exact first.bind fun _ => .refl _

theorem extends_visitChildren {run extended : Expr → Run Expr}
    (each : ∀ expr, Extends (run expr) (extended expr)) (expr : Expr) :
    Extends (visitChildren run expr) (visitChildren extended expr) := by
  have list : ∀ exprs : List Expr, Extends (exprs.mapM run) (exprs.mapM extended) := by
    intro exprs
    induction exprs with
    | nil =>
      rw [List.mapM_nil, List.mapM_nil]
      exact .refl _
    | cons first rest inductionHypothesis =>
      rw [List.mapM_cons, List.mapM_cons]
      exact (each first).bind fun _ => inductionHypothesis.bind fun _ => .refl _
  exact (list expr.children).map _

theorem extends_relate {nested extended : Expr → Run Expr}
    (each : ∀ expr, Extends (nested expr) (extended expr)) (lhs rhs : Expr) :
    Extends (relate evidence nested lhs rhs) (relate evidence extended lhs rhs) := by
  unfold relate
  split
  · exact .refl _
  split
  · exact .refl _
  split
  · exact .refl _
  split
  · exact .refl _
  · exact (each _).map _

theorem extends_applyFirst {nested extended : Expr → Run Expr}
    (each : ∀ expr, Extends (nested expr) (extended expr)) (depth : Nat) (expr : Expr)
    (rules : List Rule) : Extends (applyFirst evidence nested depth expr rules)
      (applyFirst evidence extended depth expr rules) := by
  have single : ∀ rule, Extends (applyRule evidence nested depth expr rule)
      (applyRule evidence extended depth expr rule) := by
    intro rule
    cases rule with
    | plain | counted => exact .refl _
    | comparing step operands conclude =>
      rw [applyRule, applyRule]
      cases operands expr with
      | none => exact .refl _
      | some sides => exact (extends_relate each sides.1 sides.2).bind fun _ => .refl _
  induction rules with
  | nil => exact .refl _
  | cons rule rest inductionHypothesis =>
    rw [applyFirst, applyFirst]
    refine (single rule).bind fun made => ?_
    cases made with
    | none => exact inductionHypothesis
    | some result => exact .refl _

theorem extends_settle {next? next?' : Expr → Run (Option Expr)}
    (each : ∀ expr, Extends (next? expr) (next?' expr)) (remaining : Nat) (history : List Expr)
    (current : Expr) : Extends (settle next? remaining history current)
      (settle next?' remaining history current) := by
  induction remaining generalizing history current with
  | zero =>
    rw [settle, settle]
    exact (each current).bind fun _ => .refl _
  | succ remaining inductionHypothesis =>
    rw [settle, settle]
    refine (each current).bind fun made => ?_
    cases made with
    | none => exact .refl _
    | some next =>
      dsimp only
      split
      · exact .refl _
      · exact inductionHypothesis _ _

/-- A visit that has a result has the same one with more fuel. -/
theorem extends_visit (limits : Limits) (evidence : Evidence) {fuel more : Nat} (enough : fuel ≤ more)
    (depth : Nat) (expr : Expr) :
    Extends (visit limits evidence fuel depth expr) (visit limits evidence more depth expr) := by
  induction fuel generalizing more depth expr with
  | zero =>
    intro progress found ran
    cases ran
  | succ fuel inductionHypothesis =>
    cases more with
    | zero => exact absurd enough (Nat.not_succ_le_zero fuel)
    | succ more =>
      have inner := fun depth expr => inductionHypothesis (Nat.le_of_succ_le_succ enough) depth expr
      rw [visit_succ, visit_succ]
      refine Extends.bind (.refl _) fun progress => ?_
      cases progress.results.lookup expr with
      | some result => exact .refl _
      | none =>
        refine (extends_visitChildren (inner depth) expr).bind fun first => ?_
        refine (extends_settle (fun current => ?_) limits.maxSteps [first] first).bind
          fun result => .refl _
        have nested : ∀ difference, Extends (nestedVisit limits evidence fuel depth difference)
            (nestedVisit limits evidence more depth difference) := by
          intro difference
          unfold nestedVisit
          split
          · exact .refl _
          · exact inner (depth + 1) difference
        refine (extends_applyFirst nested depth current (rulesFor current)).bind fun made => ?_
        cases made with
        | none => exact .refl _
        | some next => exact (extends_visitChildren (inner depth) next).map _

/-! ### Termination -/

theorem suffices_fuelFor (limits : Limits) (depth : Nat) {fuel : Nat} {expr : Expr}
    (enough : fuelFor limits expr ≤ fuel) : Suffices limits fuel depth expr := by
  have bounded : expr.load (fun _ => 1) ≤ 1 * twoPow expr.nodeCount := load_le_pow fun _ => le_rfl
  have weighs := heft_le (fun _ => 1) expr
  unfold fuelFor at enough
  exact ⟨fun _ => 1, by omega⟩

/-- The visit of an expression has the same result with all fuel that is at least what an expression
is given, and the result may stand in for the expression. -/
theorem exists_visit (limits : Limits) (evidence : Evidence) (depth : Nat) (expr : Expr) :
    ∃ result progress, StandsIn result expr ∧ ∀ fuel, fuelFor limits expr ≤ fuel →
      (visit limits evidence fuel depth expr).run {} = some (result, progress) := by
  obtain ⟨result, progress, ran, -, stands⟩ := gives_visit limits evidence _ depth expr
    (suffices_fuelFor limits depth le_rfl) {} (fun pair kept => by cases kept)
  exact ⟨result, progress, stands, fun fuel enough =>
    extends_visit limits evidence enough depth expr {} _ ran⟩

end IndexAlgebra.Reduction

namespace IndexAlgebra.Analyzer

open Reduction

/-- What the simplified form of an expression is, and that it may stand in for what is simplified. -/
theorem exists_reduceWithSteps (analyzer : Analyzer) (expr : Expr) : ∃ result progress,
    Expr.StandsIn result (analyzer.prepare expr) ∧
    (∀ fuel, fuelFor analyzer.limits (analyzer.prepare expr) ≤ fuel →
      (visit analyzer.limits analyzer.known.evidence fuel 0 (analyzer.prepare expr)).run {} =
        some (result, progress)) ∧
    analyzer.reduceWithSteps expr = (result, progress.steps.reverse) := by
  obtain ⟨result, progress, stands, ran⟩ :=
    exists_visit analyzer.limits analyzer.known.evidence 0 (analyzer.prepare expr)
  refine ⟨result, progress, stands, ran, ?_⟩
  unfold reduceWithSteps
  dsimp only
  rw [ran _ le_rfl]

/-- Simplification terminates for every state and every configuration of an analyzer: with all fuel
from some point on, the run ends with the same result, which is the one that is reported. -/
theorem reduceWithSteps_terminates (analyzer : Analyzer) (expr : Expr) :
    ∃ result progress, (∀ fuel, fuelFor analyzer.limits (analyzer.prepare expr) ≤ fuel →
        (visit analyzer.limits analyzer.known.evidence fuel 0 (analyzer.prepare expr)).run {} =
          some (result, progress)) ∧
      analyzer.reduceWithSteps expr = (result, progress.steps.reverse) := by
  obtain ⟨result, progress, -, ran, reports⟩ := analyzer.exists_reduceWithSteps expr
  exact ⟨result, progress, ran, reports⟩

end IndexAlgebra.Analyzer
