/-
This file says when a condition that is taken to be true is proved in its own scope. The parts of the
condition are recorded as they are written and as they are simplified outside the scope. A query however
simplifies the operands of a part first, under what all the parts tell. The part is proved if the scope
leaves its operands as they are, or makes of them what makes it a recorded part again or a comparison of
constants that holds. A variable that another part gives a single value is enough that it is not proved.
-/
import IndexAlgebra.Analyzer.Proving
import IndexAlgebra.Proofs.Courses
import IndexAlgebra.Proofs.ImpliedFacts
import IndexAlgebra.Proofs.Isolation
import IndexAlgebra.Proofs.Scopes
import IndexAlgebra.Proofs.TypePreservation

namespace IndexAlgebra

open IndexAlgebra.Expr

namespace Expr

/-! ### Expressions without replaced variables -/

section

variable {part whole : Expr} (inside : part.postOrder ⊆ whole.postOrder)

include inside

theorem hasLet_of_subset (noLet : whole.hasLet = false) : part.hasLet = false := by
  rw [hasLet, List.any_eq_false] at noLet ⊢
  exact fun node member => noLet node (inside member)

theorem mentions_subset : part.mentions ⊆ whole.mentions := by
  intro name member
  obtain ⟨node, isNode, isName⟩ := List.mem_filterMap.mp member
  exact List.mem_filterMap.mpr ⟨node, inside isNode, isName⟩

end

/-- An expression without bindings in which no variable is replaced stays as it is. -/
theorem substituteWithin_of_unreplaced {replacement : Replacement} (fuel : Nat)
    (hidden : List Variable) {expr : Expr} (noLet : expr.hasLet = false)
    (unreplaced : ∀ name ∈ expr.mentions, replacement name = none) :
    substituteWithin fuel replacement hidden expr = expr := by
  induction fuel generalizing expr with
  | zero => rfl
  | succ fuel inductionHypothesis =>
    have operands : expr.children.map (substituteWithin fuel replacement hidden) = expr.children := by
      refine (List.map_congr_left fun child isChild => ?_).trans (List.map_id expr.children)
      have inside : child.postOrder ⊆ expr.postOrder := fun node member =>
        mem_postOrder.mpr (.inr ⟨child, isChild, member⟩)
      exact inductionHypothesis (hasLet_of_subset inside noLet) fun name member =>
        unreplaced name (mentions_subset inside member)
    cases expr with
    | var dtype name =>
      rw [substituteWithin, unreplaced name (List.mem_singleton_self name)]
      exact ite_self _
    | letIn dtype name value body =>
      exact absurd (List.any_eq_true.mpr ⟨_, self_mem_postOrder _, rfl⟩) (by simpa [hasLet] using noLet)
    | _ =>
      rw [substituteWithin_of_not_isLet fuel replacement hidden rfl rfl, mapChildren, operands,
        withChildren_children]

end Expr

/-- What has no bindings and no variable with a value is simplified as it is. -/
theorem Analyzer.prepare_of_unbound {analyzer : Analyzer} {expr : Expr} (noLet : expr.hasLet = false)
    (unbound : ∀ name ∈ expr.mentions, analyzer.known.values.find? name = none) :
    analyzer.prepare expr = expr := by
  rw [Analyzer.prepare, analyzer.known.isolate_of_hasLet noLet, substitute]
  exact substituteWithin_of_unreplaced _ _ noLet unbound

namespace Reduction

/-! ### What operands become -/

variable {limits : Limits} {evidence : Evidence} {fuel : Nat} {expr form next result : Expr}

theorem undisturbed_of_isConst (isConst : expr.isConst = true) : Undisturbed evidence expr := by
  refine undisturbed_of_ignore fun node isNode => ?_
  rcases mem_postOrder.mp isNode with rfl | ⟨child, isChild, -⟩
  · exact rulesFor_ignore evidence (isFrozen_of_isConst isConst)
  · cases isConst.symm.trans (isConst_of_mem_children isChild)

/-- The value that a scalar integer is known to have is a constant, and the integer is none. -/
theorem isConst_of_knownValue? (known : Identities.knownValue? evidence expr = some result) :
    result.isConst = true ∧ expr.isConst = false := by
  simp only [Identities.knownValue?, Option.bind_eq_bind, Option.bind_eq_some_iff,
    Option.guard_eq_some', Bool.and_eq_true] at known
  obtain ⟨-, ⟨⟨isInteger, scalar⟩, varying⟩, value, -, builds⟩ := known
  obtain ⟨-, equal⟩ := Option.ite_none_right_eq_some.mp builds
  have notVector : expr.dtype.isVector = false := by
    simp [DataType.isVector, (beq_iff_eq.mp scalar : expr.dtype.lanes = 1)]
  rw [← Option.some.inj equal, ofInt, if_neg (by simp [notVector]), scalarOfInt,
    DataType.isFloat_of_isInteger isInteger, DataType.isBool_of_isInteger isInteger]
  exact ⟨rfl, by simpa using varying⟩

/-- What a visit makes of an expression whose operands are left alone: the expression itself if no rule
applies to it, or the constant that it is known to be. -/
inductive Becomes (evidence : Evidence) : Expr → Expr → Prop
  | itself {expr : Expr} (undisturbed : Undisturbed evidence expr) : Becomes evidence expr expr
  | constant {expr result : Expr} (operands : ∀ child ∈ expr.children, Undisturbed evidence child)
      (ignore : ∀ rule ∈ Identities.rules.dropLast, Rule.Ignores evidence expr rule)
      (known : Identities.knownValue? evidence expr = some result) : Becomes evidence expr result

/-- The rules that are tried on every node, with the last one at the end. -/
theorem rulesFor_eq_knownValue (expr : Expr) : ∃ others, rulesFor expr = Identities.rules.dropLast ++
    .plain .knownValue Identities.knownValue? :: others := by
  refine ⟨(if expr.dtype.isVector then Lanes.rules else []) ++ Conditions.knownRules ++
    rulesOfKind expr, ?_⟩
  rw [rulesFor, List.append_assoc, List.append_assoc, List.append_assoc]
  rfl

namespace Becomes

theorem operands (becomes : Becomes evidence expr result) :
    ∀ child ∈ expr.children, Undisturbed evidence child := by
  cases becomes with
  | itself undisturbed => exact fun _ => undisturbed.child
  | constant operands => exact operands

theorem undisturbed (becomes : Becomes evidence expr result) : Undisturbed evidence result := by
  cases becomes with
  | itself undisturbed => exact undisturbed
  | constant _ _ known => exact undisturbed_of_isConst (isConst_of_knownValue? known).1

theorem visits (becomes : Becomes evidence expr result) : Visits evidence expr result := by
  cases becomes with
  | itself => exact visits_self evidence expr
  | constant operands ignore known =>
    have operands : VisitsAll evidence expr.children expr.children :=
      visitsAll_iff.mpr (List.forall₂_same.mpr fun child _ => visits_self evidence child)
    have results : VisitsAll evidence result.children result.children :=
      visitsAll_iff.mpr (List.forall₂_same.mpr fun child _ => visits_self evidence child)
    refine .anew operands ?_
    rw [expr.withChildren_children]
    obtain ⟨others, areRules⟩ := rulesFor_eq_knownValue expr
    have applies : Applies evidence expr (rulesFor expr) (.plain .knownValue Identities.knownValue?)
        result := by
      rw [areRules]
      exact .append ignore (.here (.plain known))
    exact .step applies results (by rw [result.withChildren_children]; exact .done)

/-- An expression becomes one thing only. -/
theorem unique {other : Expr} (first : Becomes evidence expr result)
    (second : Becomes evidence expr other) : result = other := by
  have applies {made : Expr} (ignore : ∀ rule ∈ Identities.rules.dropLast, Rule.Ignores evidence expr rule)
      (known : Identities.knownValue? evidence expr = some made) :
      Applies evidence expr (rulesFor expr) (.plain .knownValue Identities.knownValue?) made := by
    obtain ⟨others, areRules⟩ := rulesFor_eq_knownValue expr
    rw [areRules]
    exact .append ignore (.here (.plain known))
  cases first with
  | itself undisturbed =>
    cases second with
    | itself => rfl
    | constant _ ignore known => cases undisturbed.not_applies (applies ignore known)
  | constant _ ignore known =>
    cases second with
    | itself undisturbed => cases undisturbed.not_applies (applies ignore known)
    | constant _ _ known' => exact Option.some.inj (known.symm.trans known')

end Becomes

/-! ### Runs over operands -/

/-- What is kept is what the expressions become. -/
abbrev Steady (evidence : Evidence) {α : Type} (run : Run α) (holds : α → Prop) : Prop :=
  Ensures (fun result expr => Becomes evidence expr result) run holds

/-- What a run does on some course, it also does if it is known what is kept. -/
theorem steady_of_onCourse {α : Type} {run : Run α} {holds : α → Prop}
    (onCourse : OnCourse evidence run holds) (keeps : Steady evidence run fun _ => True) : Steady evidence run holds := by
  intro progress result next related ran
  refine ⟨(keeps progress result next related ran).1, ?_⟩
  exact (onCourse progress result next (fun pair kept => (related pair kept).visits) ran).2

theorem applyFirst_of_plain {nested : Expr → Run Expr} (depth : Nat) {step : Step}
    {apply : Evidence → Expr → Option Expr} (applied : apply evidence form = some next)
    (rest : List Rule) :
    applyFirst evidence nested depth form (.plain step apply :: rest) = (do
      report depth step
      return some next) := by
  rw [applyFirst, applyRule, applied]
  simp

theorem applyFirst_of_counted {nested : Expr → Run Expr} (depth : Nat) {step : Step}
    {fits : Expr → Bool} {apply : Expr → Option Expr} (fit : fits form = true)
    (applied : apply form = some next) (rest : List Rule) :
    applyFirst evidence nested depth form (.counted step fits apply :: rest) = (do
      report depth step
      return some next) := by
  rw [applyFirst, applyRule, if_pos fit, applied]
  simp

theorem steady_nested (inner : Expr) :
    Steady evidence (nestedVisit limits evidence fuel 0 inner) fun _ => True := by
  unfold nestedVisit
  split
  · exact .pure trivial
  · exact ensures_nested limits evidence fuel (Nat.succ_ne_zero 0) inner

/-- Nothing is made of a form that no rule applies to. -/
theorem steady_nextForm_none (stuck : ∀ rule next, ¬Applies evidence form (rulesFor form) rule next) :
    Steady evidence (nextForm limits evidence fuel 0 form) (· = none) := by
  have onCourse : OnCourse evidence
      (applyFirst evidence (nestedVisit limits evidence fuel 0) 0 form (rulesFor form))
      fun made => ∀ next, made = some next → ∃ rule, Applies evidence form (rulesFor form) rule next :=
    onCourse_applyFirst (onCourse_nestedVisit limits evidence fuel 0) 0 (rulesFor form)
  have keeps : Steady evidence
      (applyFirst evidence (nestedVisit limits evidence fuel 0) 0 form (rulesFor form)) fun _ => True :=
    (ensures_applyFirst steady_nested 0 fun rule _ => Rule.relates_true evidence form rule).mono
      fun _ _ => trivial
  unfold nextForm
  refine (steady_of_onCourse onCourse keeps).bind fun made isMade => ?_
  cases made with
  | none => exact .pure rfl
  | some next =>
    obtain ⟨rule, applies⟩ := isMade next rfl
    cases stuck rule next applies

/-- A node settles with what no rule applies to. -/
theorem steady_settle_none {next? : Expr → Run (Option Expr)}
    (isNone : Steady evidence (next? form) (· = none)) (remaining : Nat) (history : List Expr) :
    Steady evidence (settle next? remaining history form) (· = form) := by
  cases remaining <;> rw [settle] <;> refine isNone.bind ?_ <;> rintro _ rfl <;> exact .pure rfl

/-- A node goes on from a new form as long as the limit of steps is not reached. -/
theorem steady_settle_step {next? : Expr → Run (Option Expr)} {holds : Expr → Prop} {remaining : Nat}
    {history : List Expr} (isSome : Steady evidence (next? form) (· = some next)) (isNew : next ∉ history)
    (settles : Steady evidence (settle next? remaining (next :: history) next) holds) :
    Steady evidence (settle next? (remaining + 1) history form) holds := by
  rw [settle]
  refine isSome.bind ?_
  rintro _ rfl
  dsimp only
  rw [if_neg isNew]
  exact settles

/-- A node settles with a new form that nothing is made of. -/
theorem steady_settle_some {next? : Expr → Run (Option Expr)}
    (isSome : Steady evidence (next? form) (· = some next))
    (isNone : Steady evidence (next? next) (· = none)) (remaining : Nat) {history : List Expr}
    (isNew : next ∉ history) :
    Steady evidence (settle next? remaining history form) (· = next) := by
  cases remaining with
  | zero =>
    rw [settle]
    refine isSome.bind ?_
    rintro _ rfl
    dsimp only
    rw [if_neg isNew]
    exact .pure rfl
  | succ remaining =>
    exact steady_settle_step isSome isNew (steady_settle_none isNone remaining _)


section

variable (visits : ∀ {expr result : Expr}, Becomes evidence expr result →
  Steady evidence (visit limits evidence fuel 0 expr) (· = result))

include visits

theorem steady_visitChildren {operands : List Expr}
    (become : List.Forall₂ (Becomes evidence) expr.children operands) :
    Steady evidence (visitChildren (visit limits evidence fuel 0) expr)
      (· = expr.withChildren operands) := by
  have list {exprs results : List Expr} (become : List.Forall₂ (Becomes evidence) exprs results) :
      Steady evidence (exprs.mapM (visit limits evidence fuel 0)) (· = results) := by
    induction become with
    | nil =>
      rw [List.mapM_nil]
      exact .pure rfl
    | cons becomes _ inductionHypothesis =>
      rw [List.mapM_cons]
      refine (visits becomes).bind ?_
      rintro _ rfl
      refine inductionHypothesis.bind ?_
      rintro _ rfl
      exact .pure rfl
  exact (list become).map fun _ same => by rw [same]

/-- The form that a rule makes is the next one if its operands are left alone. -/
theorem steady_nextForm_some {step : Step}
    (first : applyFirst evidence (nestedVisit limits evidence fuel 0) 0 form (rulesFor form) = (do
      report 0 step
      return some next))
    (operands : ∀ child ∈ next.children, Undisturbed evidence child) :
    Steady evidence (nextForm limits evidence fuel 0 form) (· = some next) := by
  have become : List.Forall₂ (Becomes evidence) next.children next.children :=
    List.forall₂_same.mpr fun child isChild => .itself (operands child isChild)
  have same := steady_visitChildren visits become
  rw [next.withChildren_children] at same
  unfold nextForm
  rw [first, bind_assoc]
  refine (ensures_report 0 step).bind fun _ _ => ?_
  rw [pure_bind]
  exact same.map fun result isResult => by rw [isResult]

end

/-- An expression that becomes another one is simplified to it. -/
theorem steady_visit (limits : Limits) (evidence : Evidence) (fuel : Nat) {expr result : Expr}
    (becomes : Becomes evidence expr result) :
    Steady evidence (visit limits evidence fuel 0 expr) (· = result) := by
  induction fuel generalizing expr result with
  | zero =>
    intro progress result next related ran
    cases ran
  | succ fuel inductionHypothesis =>
    have children := steady_visitChildren inductionHypothesis
      (List.forall₂_same.mpr fun child isChild => .itself (becomes.operands child isChild))
    rw [expr.withChildren_children] at children
    have ends : Steady evidence (nextForm limits evidence fuel 0 result) (· = none) :=
      steady_nextForm_none fun _ _ => becomes.undisturbed.not_applies
    have settles : Steady evidence (settle (nextForm limits evidence fuel 0) limits.maxSteps [expr] expr)
        (· = result) := by
      cases becomes with
      | itself => exact steady_settle_none ends _ _
      | constant operands ignore known =>
        obtain ⟨others, areRules⟩ := rulesFor_eq_knownValue expr
        have first : applyFirst evidence (nestedVisit limits evidence fuel 0) 0 expr (rulesFor expr) =
            (do
              report 0 .knownValue
              return some result) := by
          rw [areRules, applyFirst_append_of_ignore 0 _ ignore]
          exact applyFirst_of_plain 0 known others
        obtain ⟨isConst, varying⟩ := isConst_of_knownValue? known
        have isNew : result ∉ [expr] := by
          rw [List.mem_singleton]
          rintro rfl
          cases isConst.symm.trans varying
        refine steady_settle_some (steady_nextForm_some inductionHypothesis first ?_) ends _ isNew
        exact fun child isChild => (undisturbed_of_isConst isConst).child isChild
    have keeps : Steady evidence (keep 0 expr result) fun _ => True :=
      ensures_keep 0 becomes (.itself becomes.undisturbed)
    have anew : Steady evidence (visitAnew limits evidence fuel 0 expr) (· = result) := by
      refine children.bind ?_
      rintro _ rfl
      refine settles.bind ?_
      rintro _ rfl
      exact keeps.bind fun _ _ => .pure rfl
    intro progress found next related ran
    cases met : progress.results.lookup expr with
    | some kept =>
      rw [visit_of_kept limits evidence met] at ran
      cases ran
      obtain ⟨before, after, split, -⟩ := List.lookup_eq_some_iff.mp met
      exact ⟨related, becomes.unique (related (expr, found) (by simp [split])) |>.symm⟩
    | none =>
      rw [visit_of_new limits evidence met] at ran
      exact anew progress found next related ran

/-- What an expression becomes stands in for it. -/
theorem Becomes.standsIn (becomes : Becomes evidence expr result) : StandsIn result expr := by
  cases becomes with
  | itself => exact ⟨.refl expr, fun _ => rfl⟩
  | constant operands ignore known =>
    obtain ⟨others, areRules⟩ := rulesFor_eq_knownValue expr
    have member : .plain .knownValue Identities.knownValue? ∈ rulesFor expr := by simp [areRules]
    refine ⟨rulesFor_fit evidence expr _ member result known, fun frozen => ?_⟩
    cases (rulesFor_ignore evidence frozen _ member).symm.trans known

/-! ### Conditions that become true -/

/-- A recorded condition whose negation is not recorded is true. -/
theorem knownLiteral?_of_mem {evidence : Evidence} {form : Expr} (isType : form.dtype = .bool)
    (varying : form.isConst = false) (recorded : form ∈ evidence.truths)
    (consistent : ∀ truth ∈ evidence.truths, Conditions.negation? truth ≠ some form) :
    Conditions.knownLiteral? evidence form = some (ofBool true) := by
  have found : evidence.truths.findSome? (fun cond =>
      if cond = form then some true
      else if Conditions.negation? cond = some form then some false else none) = some true := by
    cases search : evidence.truths.findSome? _ with
    | none => simpa using List.findSome?_eq_none_iff.mp search form recorded
    | some value =>
      obtain ⟨cond, member, decides⟩ := List.exists_of_findSome?_eq_some search
      rw [if_neg (consistent cond member)] at decides
      split at decides <;> cases decides
      rfl
  have scalar : (form.dtype.isBool && form.dtype.isScalar && !form.isConst) = true := by
    simp [isType, varying, DataType.isBool, DataType.isScalar, DataType.bool, DataType.scalar]
  simp [Conditions.knownLiteral?, scalar, found]

theorem rulesFor_of_scalar {expr : Expr} (scalar : expr.dtype.isVector = false) :
    rulesFor expr = Identities.rules ++ (Conditions.knownRules ++ rulesOfKind expr) := by
  simp [rulesFor, scalar]

/-- The recorded condition is looked at when no identity applies to it. -/
theorem applyFirst_of_recorded {nested : Expr → Run Expr} (isType : form.dtype = .bool)
    (varying : form.isConst = false) (recorded : form ∈ evidence.truths)
    (ignore : ∀ rule ∈ Identities.rules, Rule.Ignores evidence form rule)
    (consistent : ∀ truth ∈ evidence.truths, Conditions.negation? truth ≠ some form) :
    applyFirst evidence nested 0 form (rulesFor form) = (do
      report 0 .knownLiteral
      return some (ofBool true)) := by
  rw [rulesFor_of_scalar (by rw [isType]; rfl), applyFirst_append_of_ignore 0 _ ignore]
  exact applyFirst_of_plain 0 (knownLiteral?_of_mem isType varying recorded consistent) _

end Reduction

namespace Analyzer

open Reduction

/-! ### Conditions in their own scope -/

/-- The state in the scope of a condition. -/
def under (analyzer : Analyzer) (cond : Expr) : Analyzer := (analyzer.enterScope (some cond)).2

/-- Each part of a condition without bindings is recorded, as it is written and as it is simplified,
unless it is a constant. -/
theorem mem_truths_under (analyzer : Analyzer) {cond part : Expr} (noLet : cond.hasLet = false)
    (isPart : part ∈ cond.conjuncts ++ (analyzer.reduce cond).conjuncts)
    (varying : part.isConst = false) : part ∈ (analyzer.under cond).known.truths := by
  have notBool : part.asBool? = none := by
    cases part with
    | boolConst => cases varying
    | _ => rfl
  have recorded : .truth part ∈ analyzer.factsWithin (some cond) := by
    rw [factsWithin, analyzer.known.isolate_of_hasLet noLet, factsOf]
    refine List.mem_flatMap.mpr ⟨part, ?_, ?_⟩
    · rw [List.mem_eraseDups, List.mem_filter]
      exact ⟨isPart, by simp [notBool]⟩
    · simp [Fact.ofConjunct, notBool]
  exact List.mem_filterMap.mpr ⟨.truth part, List.mem_append_right _ recorded, rfl⟩

/-- The form is a part of the condition as it is written or as it is simplified outside the scope, and in
the scope neither does an identity apply to it nor is it the negation of a recorded condition. -/
structure Recalls (analyzer : Analyzer) (cond form : Expr) : Prop where
  isPart : form ∈ cond.conjuncts ++ (analyzer.reduce cond).conjuncts
  varying : form.isConst = false
  ignore : ∀ rule ∈ Identities.rules, Rule.Ignores (analyzer.under cond).known.evidence form rule
  consistent : ∀ truth ∈ (analyzer.under cond).known.truths, Conditions.negation? truth ≠ some form

/-- The form is true at sight in the scope of the condition: it is the constant, or it compares constants
that are in the relation, or it is recalled, perhaps after its constant is moved to the right. -/
inductive Upholds (analyzer : Analyzer) (cond : Expr) : Expr → Prop
  | constant : Upholds analyzer cond (ofBool true)
  | folded {form : Expr} (folds : Identities.foldConstants? form = some (ofBool true)) :
    Upholds analyzer cond form
  | recalled {form : Expr} (recalls : analyzer.Recalls cond form) : Upholds analyzer cond form
  | turned {form next : Expr} (someSteps : analyzer.limits.maxSteps ≠ 0)
      (onLeft : Identities.hasConstantOnLeft form = true)
      (turns : Identities.constantToRight? form = some next) (recalls : analyzer.Recalls cond next) :
    Upholds analyzer cond form

section

variable {analyzer : Analyzer} {cond part form next : Expr} {fuel : Nat}

/-- A recalled form becomes true. -/
theorem Recalls.steady_nextForm (recalls : analyzer.Recalls cond form) (noLet : cond.hasLet = false)
    (isType : form.dtype = .bool) :
    Steady (analyzer.under cond).known.evidence
      (nextForm analyzer.limits (analyzer.under cond).known.evidence fuel 0 form)
      (· = some (ofBool true)) := by
  refine steady_nextForm_some (steady_visit _ _ fuel) (applyFirst_of_recorded isType recalls.varying
    (analyzer.mem_truths_under noLet recalls.isPart recalls.varying) recalls.ignore recalls.consistent) ?_
  exact fun child isChild => absurd isChild List.not_mem_nil

/-- A node settles with the truth if it is true at sight. -/
theorem Upholds.steady_settle (upholds : analyzer.Upholds cond form) (noLet : cond.hasLet = false)
    (typed : form.HasType .bool)
    (operands : ∀ child ∈ form.children, Undisturbed (analyzer.under cond).known.evidence child) :
    Steady (analyzer.under cond).known.evidence
      (settle (nextForm analyzer.limits (analyzer.under cond).known.evidence fuel 0)
        analyzer.limits.maxSteps [form] form) (· = ofBool true) := by
  have ends : Steady (analyzer.under cond).known.evidence
      (nextForm analyzer.limits (analyzer.under cond).known.evidence fuel 0 (ofBool true)) (· = none) :=
    steady_nextForm_none fun _ _ => (undisturbed_of_isConst rfl).not_applies
  cases upholds with
  | constant => exact steady_settle_none ends _ _
  | folded folds =>
    have next : Steady (analyzer.under cond).known.evidence
        (nextForm analyzer.limits (analyzer.under cond).known.evidence fuel 0 form)
        (· = some (ofBool true)) :=
      steady_nextForm_some (steady_visit _ _ fuel) (applyFirst_of_plain 0 folds _)
        fun child isChild => absurd isChild List.not_mem_nil
    refine steady_settle_some next ends _ fun isOld => ?_
    rw [← List.mem_singleton.mp isOld] at folds
    cases folds
  | recalled recalls =>
    refine steady_settle_some (recalls.steady_nextForm noLet typed.isType) ends _ fun isOld => ?_
    have varying := recalls.varying
    rw [← List.mem_singleton.mp isOld] at varying
    cases varying
  | @turned _ next someSteps onLeft turns recalls =>
    obtain ⟨dtype, op, lhs, rhs, rfl, isConst, varying⟩ : ∃ dtype op lhs rhs,
        form = binary dtype op lhs rhs ∧ lhs.isConst = true ∧ rhs.isConst = false := by
      cases form with
      | binary dtype op lhs rhs =>
        simp only [Identities.hasConstantOnLeft, asBinary?, Bool.and_eq_true, Bool.not_eq_true'] at onLeft
        exact ⟨dtype, op, lhs, rhs, rfl, onLeft.1.2, onLeft.2⟩
      | _ => cases onLeft
    obtain ⟨operand, isLeft, isRight, -, -, isOutput⟩ := hasType_binary.mp typed
    obtain ⟨isNext, -⟩ := binary?_eq_some (isRight.isType.trans isLeft.isType.symm) turns
    have noFold : Identities.foldConstants? (binary dtype op lhs rhs) = none := by
      cases lhs <;> cases isConst <;> cases rhs <;> first | rfl | cases varying
    have apart : next ≠ binary dtype op lhs rhs := by
      intro same
      rw [isNext, binary.injEq] at same
      rw [same.2.2.1, isConst] at varying
      cases varying
    have first : applyFirst (analyzer.under cond).known.evidence
        (nestedVisit analyzer.limits (analyzer.under cond).known.evidence fuel 0) 0
        (binary dtype op lhs rhs) (rulesFor (binary dtype op lhs rhs)) = (do
          report 0 .constantToRight
          return some next) := by
      have areRules : rulesFor (binary dtype op lhs rhs) = [.pure .foldConstants Identities.foldConstants?] ++
          .counted .constantToRight Identities.hasConstantOnLeft Identities.constantToRight? ::
            (rulesFor (binary dtype op lhs rhs)).drop 2 := rfl
      have ignore : ∀ rule ∈ [Rule.pure .foldConstants Identities.foldConstants?],
          Rule.Ignores (analyzer.under cond).known.evidence (binary dtype op lhs rhs) rule := by
        intro rule isRule
        rw [List.mem_singleton.mp isRule]
        exact noFold
      rw [areRules, applyFirst_append_of_ignore 0 _ ignore]
      exact applyFirst_of_counted 0 onLeft turns _
    have goesOn : Steady (analyzer.under cond).known.evidence
        (nextForm analyzer.limits (analyzer.under cond).known.evidence fuel 0 (binary dtype op lhs rhs))
        (· = some next) := by
      refine steady_nextForm_some (steady_visit _ _ fuel) first fun child isChild => ?_
      refine operands child ?_
      simp only [isNext, children, List.mem_cons, List.not_mem_nil, or_false] at isChild ⊢
      exact isChild.symm
    obtain ⟨steps, areSteps⟩ := Nat.exists_eq_succ_of_ne_zero someSteps
    rw [areSteps]
    refine steady_settle_step goesOn (by simpa using apart) ?_
    have isBool : next.dtype = .bool := by
      rw [isNext]
      exact (congrArg (binaryType op) isRight.isType).trans isOutput.symm
    refine steady_settle_some (recalls.steady_nextForm noLet isBool) ends _ fun isOld => ?_
    rcases List.mem_cons.mp isOld with isOld | isOld
    · have notConst := recalls.varying
      rw [← isOld] at notConst
      cases notConst
    · cases List.mem_singleton.mp isOld

end

end Analyzer

end IndexAlgebra
