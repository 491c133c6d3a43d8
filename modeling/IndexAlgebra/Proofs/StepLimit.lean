/-
This file counts the rules that are applied to one node. The limit of steps is a limit on the forms
that a node takes after its first one. It is looked at after a rule has been applied, so one rule more
than the limit may be applied to a node, and the form that this last rule makes is taken although it is
not remembered. In every other case a node ends in a form that it is remembered to have had. Outside
nested runs every rule that is applied leaves a step.
-/
import IndexAlgebra.Proofs.Termination

namespace IndexAlgebra.Reduction

open IndexAlgebra.Expr

/-! ### The forms of a node -/

section

variable {next? : Expr → Run (Option Expr)} {first : Expr} {before : Progress}

/-- What one round of settling a node comes to: no rule applies, or a rule makes a form that the node
has already had, or a new one, which is the last one if nothing remains of the limit. -/
theorem settle_cases {remaining : Nat} {history : List Expr} {current result : Expr}
    {reached after : Progress}
    (ran : (settle next? remaining history current).run reached = some (result, after)) :
    ((next? current).run reached = some (none, after) ∧ result = current) ∨
      ∃ next later, (next? current).run reached = some (some next, later) ∧
        ((next ∈ history ∧ result = current ∧ after = later) ∨
          next ∉ history ∧ ((remaining = 0 ∧ result = next ∧ after = later) ∨
            ∃ fewer, remaining = fewer + 1 ∧
              (settle next? fewer (next :: history) next).run later = some (result, after))) := by
  rw [settle.eq_def, StateT.run_bind] at ran
  obtain ⟨⟨made, later⟩, ranNext, ran⟩ := Option.bind_eq_some_iff.mp ran
  cases made with
  | none =>
    cases ran
    exact .inl ⟨ranNext, rfl⟩
  | some next =>
    dsimp only at ran
    refine .inr ⟨next, later, ranNext, ?_⟩
    split at ran
    next isOld =>
      cases ran
      exact .inl ⟨isOld, rfl, rfl⟩
    next isNew =>
      refine .inr ⟨isNew, ?_⟩
      cases remaining with
      | zero =>
        cases ran
        exact .inl ⟨rfl, rfl, rfl⟩
      | succ fewer => exact .inr ⟨fewer, rfl, ran⟩

variable (next? first before) in
/-- From its first form on a node takes the forms, the latest first, each made of the one before it
and none of them twice. The run has come to the given progress when the latest is taken. -/
inductive TakesForms : List Expr → Progress → Prop
  | start : TakesForms [first] before
  | step {current next : Expr} {earlier : List Expr} {reached later : Progress} :
    TakesForms (current :: earlier) reached → (next? current).run reached = some (some next, later) →
    next ∉ current :: earlier → TakesForms (next :: current :: earlier) later

variable (next?) in
/-- The last form of a node that has taken the forms, the latest first, and how many rules have been
applied to the node in the end. -/
inductive Ends (limit : Nat) : List Expr → Progress → Nat → Expr → Progress → Prop
  /-- No rule applies to the latest form. -/
  | exhausted {current : Expr} {earlier : List Expr} {reached after : Progress} :
    (next? current).run reached = some (none, after) →
    Ends limit (current :: earlier) reached earlier.length current after
  /-- One more rule has made a form that the node has already had. -/
  | repeated {current : Expr} {earlier : List Expr} {reached after : Progress} (next : Expr) :
    (next? current).run reached = some (some next, after) → next ∈ current :: earlier →
    Ends limit (current :: earlier) reached (earlier.length + 1) current after
  /-- One more rule has made a new form, for which there is no place left. -/
  | overrun {next : Expr} {earlier : List Expr} {reached after : Progress} (current : Expr) :
    (next? current).run reached = some (some next, after) → next ∉ current :: earlier →
    earlier.length = limit →
    Ends limit (current :: earlier) reached (earlier.length + 1) next after

theorem TakesForms.nodup {forms : List Expr} {reached : Progress}
    (takes : TakesForms next? first before forms reached) : forms.Nodup := by
  induction takes with
  | start => simp
  | step _ _ isNew inductionHypothesis => exact List.nodup_cons.mpr ⟨isNew, inductionHypothesis⟩

/-- A node is settled by taking forms one after the other, as many as there is place for at most. -/
theorem takes_of_settle {remaining limit : Nat} {current result : Expr} {earlier : List Expr}
    {reached after : Progress} (takes : TakesForms next? first before (current :: earlier) reached)
    (room : earlier.length + remaining = limit)
    (ran : (settle next? remaining (current :: earlier) current).run reached = some (result, after)) :
    ∃ forms last applied, TakesForms next? first before forms last ∧ forms.length ≤ limit + 1 ∧
      Ends next? limit forms last applied result after := by
  have fits : (current :: earlier).length ≤ limit + 1 := by rw [List.length_cons]; omega
  induction remaining generalizing current earlier reached with
  | zero =>
    rcases settle_cases ran with ⟨ranNext, rfl⟩ | ⟨next, later, ranNext, made⟩
    · exact ⟨_, reached, _, takes, fits, .exhausted ranNext⟩
    rcases made with ⟨isOld, rfl, rfl⟩ | ⟨isNew, ⟨-, rfl, rfl⟩ | ⟨fewer, absurd, -⟩⟩
    · exact ⟨_, reached, _, takes, fits, .repeated next ranNext isOld⟩
    · exact ⟨_, reached, _, takes, fits, .overrun current ranNext isNew room⟩
    · cases absurd
  | succ remaining inductionHypothesis =>
    rcases settle_cases ran with ⟨ranNext, rfl⟩ | ⟨next, later, ranNext, made⟩
    · exact ⟨_, reached, _, takes, fits, .exhausted ranNext⟩
    rcases made with ⟨isOld, rfl, rfl⟩ | ⟨isNew, ⟨absurd, -⟩ | ⟨fewer, equal, ranRest⟩⟩
    · exact ⟨_, reached, _, takes, fits, .repeated next ranNext isOld⟩
    · cases absurd
    · cases equal
      have place : (current :: earlier).length + remaining = limit := by
        rw [List.length_cons]
        omega
      exact inductionHypothesis (.step takes ranNext isNew) place ranRest
        (by rw [List.length_cons]; omega)

variable (next?) in
/-- A rule applies to the latest form of a node that has taken all the forms there is place for. -/
def GoesOver (limit : Nat) (forms : List Expr) (reached : Progress) : Prop :=
  forms.length = limit + 1 ∧ ∃ current ∈ forms.head?, ∃ next later,
    (next? current).run reached = some (some next, later)

theorem goesOver_cons {limit : Nat} {current : Expr} {earlier : List Expr} {reached : Progress} :
    GoesOver next? limit (current :: earlier) reached ↔ earlier.length = limit ∧
      ∃ next later, (next? current).run reached = some (some next, later) := by
  simp [GoesOver]

/-- The limit is exceeded by one rule at most. It is kept, and the node ends in one of its forms,
unless a rule applies to the last form that there is place for. -/
theorem Ends.applied_le {limit applied : Nat} {forms : List Expr} {result : Expr}
    {reached after : Progress} (ends : Ends next? limit forms reached applied result after)
    (fits : forms.length ≤ limit + 1) :
    applied ≤ limit + 1 ∧
      (applied ≤ limit ∧ result ∈ forms ↔ ¬ GoesOver next? limit forms reached) := by
  cases ends with
  | exhausted ran =>
    have within := Nat.le_of_succ_le_succ fits
    refine ⟨Nat.le_succ_of_le within, iff_of_true ⟨within, List.mem_cons_self⟩ ?_⟩
    rw [goesOver_cons]
    rintro ⟨-, next, later, ranNext⟩
    rw [ran] at ranNext
    cases ranNext
  | repeated next ran _ =>
    have within := Nat.le_of_succ_le_succ fits
    refine ⟨Nat.succ_le_succ within, ?_⟩
    rw [goesOver_cons]
    constructor
    · rintro ⟨kept, -⟩ ⟨full, -⟩
      omega
    · intro keeps
      refine ⟨Nat.lt_of_le_of_ne within fun full => keeps ⟨full, next, after, ran⟩, ?_⟩
      exact List.mem_cons_self
  | overrun current ran isNew full =>
    refine ⟨by rw [full], iff_of_false (fun keeps => isNew keeps.2) (not_not_intro ?_)⟩
    exact goesOver_cons.mpr ⟨full, _, _, ran⟩

end

/-! ### The steps that are left -/

section

variable {α β : Type}

/-- The run leaves so many steps or more. -/
def Leaves (run : Run α) (count : α → Nat) : Prop :=
  ∀ progress result after, run.run progress = some (result, after) →
    progress.steps.length + count result ≤ after.steps.length

theorem Leaves.pure {result : α} {count : α → Nat} (free : count result = 0) :
    Leaves (Pure.pure result) count := by
  rintro progress _ _ ran
  cases ran
  rw [free, Nat.add_zero]

theorem Leaves.bind {run : Run α} {next : α → Run β} {middle : α → Nat} {count : β → Nat}
    (first : Leaves run middle)
    (rest : ∀ result, Leaves (next result) fun final => count final - middle result) :
    Leaves (run >>= next) count := by
  intro progress final last ran
  rw [StateT.run_bind] at ran
  obtain ⟨⟨result, between⟩, ranFirst, ranRest⟩ := Option.bind_eq_some_iff.mp ran
  have early := first progress result between ranFirst
  have late := rest result between final last ranRest
  dsimp only at late
  omega

theorem Leaves.mono {run : Run α} {count count' : α → Nat} (leaves : Leaves run count)
    (less : ∀ result, count' result ≤ count result) : Leaves run count' :=
  fun progress result after ran =>
    (Nat.add_le_add_left (less result) _).trans (leaves progress result after ran)

theorem Leaves.map {run : Run α} (change : α → β) (leaves : Leaves run fun _ => 0) :
    Leaves (change <$> run) fun _ => 0 := by
  rw [← bind_pure_comp]
  exact leaves.bind fun _ => .pure rfl

/-- How many steps are left for what a rule makes. -/
def stepsFor (depth : Nat) (made : Option Expr) : Nat := if depth = 0 ∧ made.isSome then 1 else 0

theorem leaves_report (depth : Nat) (step : Step) :
    Leaves (report depth step) fun _ => if depth = 0 then 1 else 0 := by
  intro progress _ _ ran
  unfold report at ran
  split at ran
  next outside =>
    cases ran
    simp [outside]
  next nested =>
    cases ran
    simp [nested]

theorem leaves_keep (depth : Nat) (expr result : Expr) :
    Leaves (keep depth expr result) fun _ => 0 := by
  intro progress _ _ ran
  unfold keep at ran
  split at ran
  · cases ran
    exact le_rfl
  · cases ran
    exact le_rfl

theorem leaves_visitChildren {run : Expr → Run Expr} (each : ∀ expr, Leaves (run expr) fun _ => 0)
    (expr : Expr) : Leaves (visitChildren run expr) fun _ => 0 := by
  have list : ∀ exprs : List Expr, Leaves (exprs.mapM run) fun _ => 0 := by
    intro exprs
    induction exprs with
    | nil =>
      rw [List.mapM_nil]
      exact .pure rfl
    | cons first rest inductionHypothesis =>
      rw [List.mapM_cons]
      exact (each first).bind fun _ => inductionHypothesis.bind fun _ => .pure rfl
  exact (list expr.children).map _

variable {evidence : Evidence} {nested : Expr → Run Expr}

theorem leaves_relate (each : ∀ expr, Leaves (nested expr) fun _ => 0) (lhs rhs : Expr) :
    Leaves (relate evidence nested lhs rhs) fun _ => 0 := by
  unfold relate
  split
  · exact .pure rfl
  split
  · exact .pure rfl
  split
  · exact .pure rfl
  split
  · exact .pure rfl
  · exact (each _).map _

theorem stepsFor_le (depth : Nat) (made : Option Expr) (next : Expr) :
    stepsFor depth made ≤ stepsFor depth (some next) := by
  unfold stepsFor
  split <;> split <;> simp_all

/-- What a rule makes once its step is reported. -/
theorem leaves_report_bind (depth : Nat) (step : Step) (made : Option Expr) :
    Leaves (report depth step >>= fun _ => pure made) (stepsFor depth) := by
  refine (leaves_report depth step).bind fun _ => .pure ?_
  unfold stepsFor
  split <;> split <;> simp_all

theorem leaves_none (depth : Nat) : Leaves (pure none) (stepsFor depth) :=
  .pure (by simp [stepsFor])

theorem leaves_applyRule (each : ∀ expr, Leaves (nested expr) fun _ => 0) (depth : Nat) (expr : Expr)
    (rule : Rule) : Leaves (applyRule evidence nested depth expr rule) (stepsFor depth) := by
  cases rule with
  | plain step apply =>
    rw [applyRule]
    cases apply evidence expr with
    | none => exact leaves_none depth
    | some result => exact leaves_report_bind depth step (some result)
  | counted step fits apply =>
    rw [applyRule]
    split
    · exact leaves_report_bind depth step (apply expr)
    · exact leaves_none depth
  | comparing step operands conclude =>
    rw [applyRule]
    cases operands expr with
    | none => exact leaves_none depth
    | some sides =>
      refine (leaves_relate each sides.1 sides.2).bind fun relation => ?_
      cases conclude relation expr with
      | none => exact leaves_none depth
      | some result => exact leaves_report_bind depth step (some result)

theorem leaves_applyFirst (each : ∀ expr, Leaves (nested expr) fun _ => 0) (depth : Nat) (expr : Expr)
    (rules : List Rule) : Leaves (applyFirst evidence nested depth expr rules) (stepsFor depth) := by
  induction rules with
  | nil => exact leaves_none depth
  | cons rule rest inductionHypothesis =>
    rw [applyFirst]
    refine (leaves_applyRule each depth expr rule).bind fun made => ?_
    cases made with
    | none => exact inductionHypothesis.mono fun made => Nat.sub_le _ _
    | some result => exact .pure (Nat.sub_self _)

theorem leaves_settle {next? : Expr → Run (Option Expr)}
    (each : ∀ expr, Leaves (next? expr) fun _ => 0) (remaining : Nat) (history : List Expr)
    (current : Expr) : Leaves (settle next? remaining history current) fun _ => 0 := by
  induction remaining generalizing history current with
  | zero =>
    rw [settle]
    refine (each current).bind fun made => ?_
    cases made with
    | none => exact .pure rfl
    | some next =>
      dsimp only
      split
      · exact .pure rfl
      · exact .pure rfl
  | succ remaining inductionHypothesis =>
    rw [settle]
    refine (each current).bind fun made => ?_
    cases made with
    | none => exact .pure rfl
    | some next =>
      dsimp only
      split
      · exact .pure rfl
      · exact inductionHypothesis _ _

variable {limits : Limits} {fuel : Nat}

theorem leaves_nextForm (visits : ∀ depth expr, Leaves (visit limits evidence fuel depth expr) fun _ => 0)
    (depth : Nat) (current : Expr) :
    Leaves (nextForm limits evidence fuel depth current) (stepsFor depth) := by
  have nested : ∀ inner, Leaves (nestedVisit limits evidence fuel depth inner) fun _ => 0 := by
    intro inner
    unfold nestedVisit
    split
    · exact .pure rfl
    · exact visits (depth + 1) inner
  unfold nextForm
  refine (leaves_applyFirst nested depth current (rulesFor current)).bind fun made => ?_
  cases made with
  | none => exact (leaves_none depth).mono fun made => Nat.sub_le _ _
  | some next =>
    refine ((leaves_visitChildren (visits depth) next).map some).mono fun made => ?_
    exact Nat.sub_le_of_le_add (by simpa using stepsFor_le depth made next)

theorem leaves_visit (limits : Limits) (evidence : Evidence) (fuel depth : Nat) (expr : Expr) :
    Leaves (visit limits evidence fuel depth expr) fun _ => 0 := by
  induction fuel generalizing depth expr with
  | zero =>
    intro progress result after ran
    cases ran
  | succ fuel inductionHypothesis =>
    have anew : Leaves (visitAnew limits evidence fuel depth expr) fun _ => 0 := by
      refine (leaves_visitChildren (inductionHypothesis depth) expr).bind fun first => ?_
      refine (leaves_settle (fun current => ?_) limits.maxSteps [first] first).bind fun result => ?_
      · exact (leaves_nextForm inductionHypothesis depth current).mono fun _ => Nat.zero_le _
      · exact (leaves_keep depth expr result).bind fun _ => .pure rfl
    intro progress result after ran
    cases met : progress.results.lookup expr with
    | some found =>
      rw [visit_of_kept limits evidence met] at ran
      cases ran
      exact le_rfl
    | none =>
      rw [visit_of_new limits evidence met] at ran
      exact anew progress result after ran

end

/-! ### Every node -/

section

variable {limits : Limits} {evidence : Evidence} {fuel depth : Nat}

/-- Outside nested runs every form after the first one has left a step. -/
theorem TakesForms.steps_le {first : Expr} {before reached : Progress} {forms : List Expr}
    (takes : TakesForms (nextForm limits evidence fuel 0) first before forms reached) :
    before.steps.length + forms.length ≤ reached.steps.length + 1 := by
  induction takes with
  | start => simp
  | step _ ran _ inductionHypothesis =>
    have left := leaves_nextForm (leaves_visit limits evidence fuel) 0 _ _ _ _ ran
    simp only [List.length_cons, stepsFor, Option.isSome_some, and_self, if_true] at *
    omega

theorem Ends.steps_le {limit applied : Nat} {result : Expr} {reached after : Progress}
    {forms : List Expr}
    (ends : Ends (nextForm limits evidence fuel 0) limit forms reached applied result after) :
    reached.steps.length + 1 + applied ≤ after.steps.length + forms.length := by
  have left := leaves_nextForm (leaves_visit limits evidence fuel) 0
  cases ends with
  | exhausted ran =>
    have more := left _ _ _ _ ran
    rw [List.length_cons]
    omega
  | repeated next ran =>
    have more := left _ _ _ _ ran
    simp only [List.length_cons, stepsFor, Option.isSome_some, and_self, if_true] at *
    omega
  | overrun current ran =>
    have more := left _ _ _ _ ran
    simp only [List.length_cons, stepsFor, Option.isSome_some, and_self, if_true] at *
    omega

variable (limits evidence fuel depth) in
/-- How the visit of a node goes that has not been met before: its operands are simplified, then it
takes forms, and so many rules are applied to it until it ends. -/
def Course (expr : Expr) (before : Progress) (forms : List Expr) (reached : Progress) (applied : Nat)
    (result : Expr) (after : Progress) : Prop :=
  ∃ first between last,
    (visitChildren (visit limits evidence fuel depth) expr).run before = some (first, between) ∧
    TakesForms (nextForm limits evidence fuel depth) first between forms reached ∧
    Ends (nextForm limits evidence fuel depth) limits.maxSteps forms reached applied result last ∧
    (keep depth expr result).run last = some ((), after)

/-- Every visit of an expression that has not been met before goes so. -/
theorem course_of_visit {expr result : Expr} {before after : Progress}
    (ran : (visit limits evidence (fuel + 1) depth expr).run before = some (result, after)) :
    (before.results.lookup expr = some result ∧ after = before) ∨
      ∃ forms reached applied, forms.length ≤ limits.maxSteps + 1 ∧
        Course limits evidence fuel depth expr before forms reached applied result after := by
  cases met : before.results.lookup expr with
  | some found =>
    rw [visit_of_kept limits evidence met] at ran
    cases ran
    exact .inl ⟨rfl, rfl⟩
  | none =>
    rw [visit_of_new limits evidence met, visitAnew, StateT.run_bind] at ran
    obtain ⟨⟨first, between⟩, ranFirst, ran⟩ := Option.bind_eq_some_iff.mp ran
    rw [StateT.run_bind] at ran
    obtain ⟨⟨settled, last⟩, ranSettle, ran⟩ := Option.bind_eq_some_iff.mp ran
    rw [StateT.run_bind] at ran
    obtain ⟨⟨⟨⟩, final⟩, ranKeep, ran⟩ := Option.bind_eq_some_iff.mp ran
    cases ran
    obtain ⟨forms, reached, applied, takes, fits, ends⟩ :=
      takes_of_settle .start (Nat.zero_add _) ranSettle
    exact .inr ⟨forms, reached, applied, fits, first, between, last, ranFirst, takes, ends, ranKeep⟩

/-- Outside nested runs every rule that is applied to a node leaves a step. -/
theorem Course.steps_le {expr result : Expr} {before reached after : Progress} {forms : List Expr}
    {applied : Nat}
    (course : Course limits evidence fuel 0 expr before forms reached applied result after) :
    before.steps.length + applied ≤ after.steps.length := by
  obtain ⟨first, between, last, ranFirst, takes, ends, ranKeep⟩ := course
  have children := leaves_visitChildren (leaves_visit limits evidence fuel 0) expr _ _ _ ranFirst
  have kept := leaves_keep 0 expr result _ _ _ ranKeep
  have taken := takes.steps_le
  have ended := ends.steps_le
  omega

end

end IndexAlgebra.Reduction

namespace IndexAlgebra.Analyzer

open Reduction

/-- A simplification ends, and at every node that it visits one rule more than the limit may be
applied. The limit is kept, and the node ends in one of the forms that it is remembered to have had,
unless a rule applies to the last form that there is place for. -/
theorem rules_applied_le (analyzer : Analyzer) (expr : Expr) :
    (∃ result progress,
      (visit analyzer.limits analyzer.known.evidence
        (fuelFor analyzer.limits (analyzer.prepare expr)) 0 (analyzer.prepare expr)).run {} =
          some (result, progress) ∧
      analyzer.reduceWithSteps expr = (result, progress.steps.reverse)) ∧
    ∀ (fuel depth : Nat) (node result : Expr) (before after : Progress),
      (visit analyzer.limits analyzer.known.evidence (fuel + 1) depth node).run before =
        some (result, after) →
      (before.results.lookup node = some result ∧ after = before) ∨
      ∃ forms reached applied,
        Course analyzer.limits analyzer.known.evidence fuel depth node before forms reached applied
          result after ∧
        forms.Nodup ∧ forms.length ≤ analyzer.limits.maxSteps + 1 ∧
        applied ≤ analyzer.limits.maxSteps + 1 ∧
        (applied ≤ analyzer.limits.maxSteps ∧ result ∈ forms ↔
          ¬ GoesOver (nextForm analyzer.limits analyzer.known.evidence fuel depth)
            analyzer.limits.maxSteps forms reached) ∧
        (depth = 0 → before.steps.length + applied ≤ after.steps.length) := by
  obtain ⟨result, progress, -, ran, reports⟩ := analyzer.exists_reduceWithSteps expr
  refine ⟨⟨result, progress, ran _ le_rfl, reports⟩, ?_⟩
  intro fuel depth node result before after ran
  refine (course_of_visit ran).imp_right ?_
  rintro ⟨forms, reached, applied, fits, course⟩
  obtain ⟨_, _, _, -, takes, ends, -⟩ := id course
  obtain ⟨within, keeps⟩ := ends.applied_le fits
  refine ⟨forms, reached, applied, course, takes.nodup, fits, within, keeps, ?_⟩
  rintro rfl
  exact course.steps_le

/-- Where one rule is allowed, `x + 0` becomes `x` by one rule. -/
theorem rules_applied_le_one :
    let x : Variable := ⟨"x", .int32, false⟩
    let sum := Expr.binary .int32 .add x.expr (.intConst .int32 0)
    let analyzer : Analyzer := { limits := { maxSteps := 1 } }
    analyzer.reduceWithSteps sum = (x.expr, [.addZero]) ∧
    ∃ fuel forms reached applied after,
      Course analyzer.limits analyzer.known.evidence fuel 0 sum {} forms reached applied x.expr after ∧
      applied ≤ 1 := by
  intro x sum analyzer
  have isSum : analyzer.prepare sum = sum := by decide +kernel
  have simplifies : analyzer.reduceWithSteps sum = (x.expr, [.addZero]) := by decide +kernel
  refine ⟨simplifies, ?_⟩
  obtain ⟨⟨result, progress, ran, reports⟩, visits⟩ := analyzer.rules_applied_le sum
  rw [simplifies, Prod.mk.injEq] at reports
  obtain ⟨rfl, reported⟩ := reports
  rw [isSum] at ran
  rcases visits _ _ _ _ _ _ ran with ⟨absurd, -⟩ | ⟨forms, reached, applied, course, -, -, -, -, left⟩
  · cases absurd
  refine ⟨_, forms, reached, applied, progress, course, ?_⟩
  have single : progress.steps.length = 1 := by
    rw [← List.length_reverse, ← reported]
    rfl
  simpa [single] using left rfl

/-- Where no rule is allowed, one is applied to `x + 0`, which becomes `x`, and its step is collected. -/
theorem not_rules_applied_le :
    let x : Variable := ⟨"x", .int32, false⟩
    let sum := Expr.binary .int32 .add x.expr (.intConst .int32 0)
    let analyzer : Analyzer := { limits := { maxSteps := 0 } }
    analyzer.prepare sum = sum ∧
    analyzer.reduceWithSteps sum = (x.expr, [.addZero]) := by
  decide +kernel

end IndexAlgebra.Analyzer
