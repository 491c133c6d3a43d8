/-
This file proves that simplification keeps the value of an expression. A rule keeps the value of the
form that it is applied to if what it is told is true, and a node keeps its value when its operands keep
theirs where the node evaluates them. So does every course that a visit may take, by induction on it,
and a proof that compares two expressions by their simplified difference is right for the same reason.
What rules are told is true because what is known is. What is asked of each form that is met, and of no
other expression, is gathered in one condition.
-/
import IndexAlgebra.Proofs.BackedRules
import IndexAlgebra.Proofs.Courses
import IndexAlgebra.Proofs.ProvenRelations
import IndexAlgebra.Proofs.TrueKnowledge
import IndexAlgebra.Proofs.TypePreservation

namespace IndexAlgebra

open IndexAlgebra.Expr

variable {env inner : Environment} {evidence : Evidence} {known : Knowledge}

/-! ### Environments of operands -/

theorem Expr.exists_enters (env : Environment) {expr child : Expr} (isChild : child ∈ expr.children) :
    ∃ inner, Enters env expr child inner := by
  cases expr with
  | letIn dtype name value body =>
    rcases List.mem_cons.mp isChild with rfl | isBody
    · exact ⟨env, .bound⟩
    · rw [List.mem_singleton.mp isBody]
      exact ⟨_, .body⟩
  | _ => exact ⟨env, .operand rfl isChild⟩

namespace Reduction

/-! ### Simplified forms -/

/-- The result is regular, has the type of the expression, and its exact value if it has one. -/
structure Simplified (env : Environment) (expr result : Expr) : Prop where
  regular : result.Regular
  keeps : KeepsIn env expr result

variable {expr form next result lhs rhs : Expr} {rule : Rule}

theorem Simplified.refl (regular : expr.Regular) : Simplified env expr expr :=
  ⟨regular, rfl, fun _ => id⟩

theorem Simplified.trans (first : Simplified env expr form) (second : Simplified env form result) :
    Simplified env expr result :=
  ⟨second.regular, second.keeps.isType.trans first.keeps.isType,
    fun value evaluated => second.keeps.evaluates value (first.keeps.evaluates value evaluated)⟩

theorem operands_of_simplified {exprs results : List Expr}
    (simplified : List.Forall₂ (fun old new => ∃ inner, Simplified inner old new) exprs results) :
    results.map Expr.dtype = exprs.map Expr.dtype ∧ ∀ result ∈ results, result.Regular := by
  induction simplified with
  | nil => exact ⟨rfl, fun _ member => by cases member⟩
  | cons first _ inductionHypothesis =>
    obtain ⟨inner, first⟩ := first
    obtain ⟨types, regular⟩ := inductionHypothesis
    exact ⟨by rw [List.map_cons, List.map_cons, first.keeps.isType, types],
      List.forall_mem_cons.mpr ⟨first.regular, regular⟩⟩

/-- A node with operands that are simplified where the node evaluates them. -/
theorem simplified_withChildren (regular : expr.Regular) {operands : List Expr}
    (simplified : List.Forall₂
      (fun old new => ∀ inner, Enters env expr old inner → Simplified inner old new)
      expr.children operands) : Simplified env expr (expr.withChildren operands) := by
  have entered :
      List.Forall₂ (fun old new => ∃ inner, Simplified inner old new) expr.children operands := by
    refine List.forall₂_iff_zip.mpr ⟨simplified.length_eq, fun isPair => ?_⟩
    obtain ⟨inner, enters⟩ := exists_enters env (List.of_mem_zip isPair).1
    exact ⟨inner, List.forall₂_zip simplified isPair inner enters⟩
  obtain ⟨types, regularOperands⟩ := operands_of_simplified entered
  refine ⟨regular.withChildren types regularOperands, dtype_withChildren expr operands,
    fun value => evaluate_withChildren_of_keepsIn (simplified.imp fun old new isSimplified => ?_)⟩
  exact fun inner enters => (isSimplified inner enters).keeps

/-! ### What is asked of a form -/

/-- What is asked of a form for its value to be kept. A binding binds a variable apart from what is
known, and what is converted has values of its types. The next rule makes no constant one of an integer
type that cannot hold it, and a branch that it exposes has an exact value if the form has one. A rule
makes the same of what is known of measured expressions alone, and so does a comparison of two operands
by their difference. -/
structure Clear (known : Knowledge) (env : Environment) (form : Expr) : Prop where
  binds : form.BindsApart known env
  held : Conversions.Held .unbounded env form
  fitsOne : ∀ {rule next}, Applies known.evidence form (rulesFor form) rule next → next.FitsOne
  exposed : ∀ {rule next branch value}, Applies known.evidence form (rulesFor form) rule next →
    Choices.Exposes form next branch → form.evalExact env = some value →
      (branch.evalExact env).isSome = true
  told : ∀ {step apply next}, Applies known.evidence form (rulesFor form) (.plain step apply) next →
    apply (known.measured env) form = some next
  enclosed : ∀ {step operands conclude next lhs rhs difference simplified},
    Applies known.evidence form (rulesFor form) (.comparing step operands conclude) next →
      operands form = some (lhs, rhs) → ReadsDifference lhs rhs difference →
        simplified = difference ∨ Visits known.evidence difference simplified →
          (known.measured env).relationToZero simplified = known.evidence.relationToZero simplified

/-- A visit of the expression in the first environment may apply a rule to the form in the second one. -/
inductive Meets (evidence : Evidence) : Environment → Expr → Environment → Expr → Prop
  | node {env : Environment} {expr : Expr} {operands : List Expr}
      (visited : VisitsAll evidence expr.children operands) :
      Meets evidence env expr env (expr.withChildren operands)
  | operand {env inner last : Environment} {expr child form : Expr}
      (enters : Enters env expr child inner)
      (meets : Meets evidence inner child last form) : Meets evidence env expr last form
  | next {env inner last : Environment} {expr form next final : Expr} {rule : Rule}
      (meets : Meets evidence env expr inner form)
      (applies : Applies evidence form (rulesFor form) rule next)
      (later : Meets evidence inner next last final) : Meets evidence env expr last final
  | difference {env inner last : Environment} {expr form next lhs rhs difference final : Expr}
      {step : Step}
      {operands : Expr → Option (Expr × Expr)} {conclude : Relation → Expr → Option Expr}
      (meets : Meets evidence env expr inner form)
      (applies : Applies evidence form (rulesFor form) (.comparing step operands conclude) next)
      (areOperands : operands form = some (lhs, rhs))
      (reads : ReadsDifference lhs rhs difference)
      (later : Meets evidence inner difference last final) : Meets evidence env expr last final

/-- Every form that a visit of the expression may meet is clear. -/
def AllClear (known : Knowledge) (env : Environment) (expr : Expr) : Prop :=
  ∀ inner form, Meets known.evidence env expr inner form → Clear known inner form

/-- What the rule compares two expressions by. -/
def Rule.operands? : Rule → Option (Expr → Option (Expr × Expr))
  | .comparing _ operands _ => some operands
  | _ => none

/-- Whatever a visit comes to from one of these expressions, in its environment, is one of them too. -/
structure Closed (evidence : Evidence) (visited : Environment → Expr → Prop) : Prop where
  node : ∀ {env expr operands}, visited env expr → VisitsAll evidence expr.children operands →
    visited env (expr.withChildren operands)
  operand : ∀ {env inner expr child}, visited env expr → Enters env expr child inner →
    visited inner child
  next : ∀ {env form rule next}, visited env form → Applies evidence form (rulesFor form) rule next →
    visited env next
  difference : ∀ {env form next step operands conclude lhs rhs difference}, visited env form →
    Applies evidence form (rulesFor form) (.comparing step operands conclude) next →
      operands form = some (lhs, rhs) → ReadsDifference lhs rhs difference →
        visited env difference

theorem Closed.visited_of_meets {visited : Environment → Expr → Prop} (closed : Closed evidence visited)
    (meets : Meets evidence env expr inner form) (start : visited env expr) : visited inner form := by
  induction meets with
  | node operands => exact closed.node start operands
  | operand enters _ inductionHypothesis => exact inductionHypothesis (closed.operand start enters)
  | next _ applies _ first second => exact second (closed.next (first start) applies)
  | difference _ applies areOperands reads _ first second =>
    exact second (closed.difference (first start) applies areOperands reads)

theorem Rests.undisturbed (rests : Rests evidence form) : Undisturbed evidence form := by
  refine undisturbed_of_ignore fun node isNode => ?_
  rcases mem_postOrder.mp isNode with rfl | ⟨child, isChild, -⟩
  · exact rests.2
  · cases rests.1 ▸ isChild

theorem Rests.clear (rests : Rests known.evidence form) : Clear known env form where
  binds := by cases form <;> first | trivial | cases rests.1
  held := by
    have noConversion : form.converted = [] := by
      cases form <;> first | rfl | cases rests.1
    rw [Conversions.Held, noConversion]
    exact fun _ member => by cases member
  fitsOne applies := (rests.undisturbed.not_applies applies).elim
  exposed applies := (rests.undisturbed.not_applies applies).elim
  told applies := (rests.undisturbed.not_applies applies).elim
  enclosed applies := (rests.undisturbed.not_applies applies).elim

/-- A visit of a node with operands at rest meets clear forms alone if the node is clear, and a rule that
compares nothing puts an expression at rest in its place. -/
theorem allClear_of_rest (noLet : expr.isLet = false)
    (rest : ∀ child ∈ expr.children, Rests known.evidence child) (clear : Clear known env expr)
    (next : ∀ {rule next}, Applies known.evidence expr (rulesFor expr) rule next →
      Rule.operands? rule = none ∧ Rests known.evidence next) : AllClear known env expr := by
  have closed : Closed known.evidence
      fun inner form => inner = env ∧ (form = expr ∨ Rests known.evidence form) := by
    refine ⟨?_, ?_, ?_, ?_⟩
    · rintro _ form operands ⟨rfl, isForm⟩ visited
      have same : operands = form.children := by
        refine visited.eq_of_undisturbed fun child isChild => ?_
        rcases isForm with rfl | rests
        · exact (rest child isChild).undisturbed
        · rw [rests.1] at isChild
          cases isChild
      rw [same, form.withChildren_children]
      exact ⟨rfl, isForm⟩
    · rintro _ inner form child ⟨rfl, rfl | rests⟩ enters
      · cases enters with
        | operand _ isChild => exact ⟨rfl, .inr (rest child isChild)⟩
        | bound | body => cases noLet
      · cases rests.1 ▸ enters.mem_children
    · rintro _ form rule made ⟨rfl, rfl | rests⟩ applies
      · exact ⟨rfl, .inr (next applies).2⟩
      · cases rests.undisturbed.not_applies applies
    · rintro _ form made step compared conclude lhs rhs difference ⟨rfl, rfl | rests⟩ applies
      · cases (next applies).1
      · cases rests.undisturbed.not_applies applies
  intro inner form meets
  obtain ⟨rfl, rfl | rests⟩ := closed.visited_of_meets meets ⟨rfl, .inl rfl⟩
  · exact clear
  · exact rests.clear

theorem allClear_of_rests (rests : Rests known.evidence expr) : AllClear known env expr := by
  refine allClear_of_rest ?_ (fun child isChild => ?_) rests.clear fun applies =>
    (rests.undisturbed.not_applies applies).elim
  · cases expr <;> first | rfl | cases rests.1
  · cases rests.1 ▸ isChild

/-! ### Rules -/

/-- What the rules compare that do so: the operands of comparisons and those of extrema. -/
def comparedOperands : List (Expr → Option (Expr × Expr)) :=
  [Comparisons.comparisonOperands?, Extrema.extremumOperands?]

theorem operands?_of_rulesOfOp (dtype : DataType) (op : BinaryOp) :
    (rulesOfOp dtype op).filterMap Rule.operands? ⊆ comparedOperands := by
  have none {rules : List Rule} (compareNothing : rules.filterMap Rule.operands? = []) :
      (if dtype.isInteger then rules else []).filterMap Rule.operands? ⊆ comparedOperands := by
    split
    · rw [compareNothing]
      exact List.nil_subset _
    · exact List.nil_subset _
  have extrema : (if dtype.isInteger then Extrema.rules else []).filterMap Rule.operands? ⊆
      comparedOperands := by
    split
    · exact List.subset_cons_self _ _
    · exact List.nil_subset _
  cases op with
  | add | sub | mul | truncDiv | floorDiv | truncMod | floorMod => exact none rfl
  | min | max => exact extrema
  | eq | ne | lt | le | gt | ge => exact List.cons_subset_cons _ (List.nil_subset _)
  | and | or => exact List.nil_subset _

theorem operands?_of_rulesFor (expr : Expr) :
    (rulesFor expr).filterMap Rule.operands? ⊆ comparedOperands := by
  have ofKind : (rulesOfKind expr).filterMap Rule.operands? ⊆ comparedOperands := by
    cases expr with
    | binary dtype op => exact operands?_of_rulesOfOp dtype op
    | _ => exact List.nil_subset _
  have vectors : (if expr.dtype.isVector then Lanes.rules else []).filterMap Rule.operands? = [] := by
    split <;> rfl
  have others : Identities.rules.filterMap Rule.operands? = [] ∧
      Conditions.knownRules.filterMap Rule.operands? = [] := ⟨rfl, rfl⟩
  rw [rulesFor, List.filterMap_append, List.filterMap_append, List.filterMap_append, others.1, vectors,
    others.2, List.nil_append, List.nil_append, List.nil_append]
  exact ofKind

/-- A rule compares the operands of a binary node, if it compares any expressions. -/
theorem children_of_comparing {step : Step} {operands : Expr → Option (Expr × Expr)}
    {conclude : Relation → Expr → Option Expr}
    (member : .comparing step operands conclude ∈ rulesFor expr)
    (areOperands : operands expr = some (lhs, rhs)) : lhs ∈ expr.children ∧ rhs ∈ expr.children := by
  have isBinary : ∃ op, expr.asBinary? = some (op, lhs, rhs) := by
    have compared := operands?_of_rulesFor expr (List.mem_filterMap.mpr ⟨_, member, rfl⟩)
    simp only [comparedOperands, List.mem_cons, List.not_mem_nil, or_false] at compared
    rcases compared with rfl | rfl
    · obtain ⟨⟨op, _⟩, isComparison, rfl⟩ := Option.map_eq_some_iff.mp areOperands
      exact ⟨op, (Option.filter_eq_some_iff.mp isComparison).1⟩
    · obtain ⟨⟨op, _⟩, isExtremum, rfl⟩ := Option.map_eq_some_iff.mp areOperands
      exact ⟨op, (Option.filter_eq_some_iff.mp isExtremum).1⟩
  obtain ⟨op, isBinary⟩ := isBinary
  obtain ⟨dtype, rfl⟩ := asBinary?_eq_some.mp isBinary
  exact ⟨List.mem_cons_self, List.mem_cons_of_mem _ List.mem_cons_self⟩

/-! ### What rules are told -/

/-- The relation holds of the integers of the two expressions, in every lane. -/
def TrueOf (relation : Relation) (env : Environment) (lhs rhs : Expr) : Prop :=
  ∀ index left right, lhs.valueIn .unbounded env index = some left →
    rhs.valueIn .unbounded env index = some right → relation.Holds left right

/-- Evidence that tells nothing. -/
def silent : Evidence := ⟨fun _ => .everything, fun _ => .everything, fun _ => none, []⟩

theorem reliable_silent (check : RangeCheck) (env : Environment) : silent.Reliable check env :=
  ⟨fun _ _ number _ => Bound.contains_everything number,
    fun _ _ number _ => Congruence.contains_everything number, (by cases ·),
    fun _ member => by cases member⟩

/-- The answers that tell how two expressions are related, and nothing of other ones. -/
def relating (evidence : Evidence) (lhs rhs : Expr) (relation : Relation) : Answers :=
  ⟨evidence, fun first second => if first = lhs ∧ second = rhs then relation else .unknown⟩

theorem informed_relating (reliable : evidence.Reliable .unbounded env) {relation : Relation}
    (isTrue : TrueOf relation env lhs rhs) :
    Informed .unbounded env (relating evidence lhs rhs relation) := by
  refine ⟨reliable, fun first second index left right isLeft isRight => ?_⟩
  rw [relating]
  dsimp only
  split
  next same =>
    obtain ⟨rfl, rfl⟩ := same
    exact isTrue index left right isLeft isRight
  next => trivial

/-- What a rule makes of a regular form that is clear is a simplified form, if the rule makes it of true
answers. -/
theorem Clear.simplified (clear : Clear known env form) (regular : form.Regular)
    (truthful : env.Truthful) (applies : Applies known.evidence form (rulesFor form) rule next)
    (answered : ∃ answers, Informed .unbounded env answers ∧ rule.Rewrites answers form next) :
    Simplified env form next := by
  obtain ⟨answers, informed, rewrites⟩ := answered
  have isType : next.dtype = form.dtype := by
    have fits := rulesFor_fit answers.evidence form rule applies.mem
    have stands : next.StandsFor form := by
      cases rule with
      | plain step apply => exact fits next rewrites
      | counted step isFit apply => exact fits next rewrites.1 rewrites.2
      | comparing step operands conclude =>
        obtain ⟨lhs, rhs, -, concludes⟩ := rewrites
        exact fits.2 _ next concludes
    exact (stands.typed form.dtype regular.typed.coherent.hasType).2
  have kept : next.KeptBy env form := (rulesFor_kept truthful _ _ rule applies.mem).of_rewrites rewrites
  have backed : Backed env form next := kept regular (clear.fitsOne applies)
    fun value evaluated branch exposes => clear.exposed applies exposes evaluated
  have same := sameIn_of_rulesFor applies.mem ⟨truthful, regular, backed.regular, isType⟩ informed
    clear.held (passesIntegers_unbounded env) rewrites
  refine ⟨backed.regular, isType, fun value evaluated => ?_⟩
  obtain ⟨found, isFound⟩ := backed.defined value evaluated
  rw [same value found evaluated isFound]
  exact isFound

/-! ### Differences -/

/-- The difference of two regular integers is regular. -/
theorem ReadsDifference.regular {difference : Expr} (reads : ReadsDifference lhs rhs difference)
    (isLhs : lhs.Regular) (isRhs : rhs.Regular) : difference.Regular := by
  obtain ⟨rfl, -⟩ := binary?_eq_some reads.same reads.builds
  have isType : binaryType .sub lhs.dtype = lhs.dtype := rfl
  have notLogical : BinaryOp.sub.isLogical = false := rfl
  refine regular_iff.mpr ⟨?_, isLhs.notFloat, ?_, ?_⟩
  · rw [WellTyped]
    exact ⟨isLhs.typed, isRhs.typed, reads.same, rfl, by simp [notLogical]⟩
  · rintro ⟨-, isBool⟩
    cases (DataType.isInteger_of_isBool isBool).symm.trans reads.isInteger
  · intro child isChild
    simp only [children, List.mem_cons, List.not_mem_nil, or_false] at isChild
    rcases isChild with rfl | rfl
    · exact isLhs
    · exact isRhs

theorem getElem?_of_ofInts {numbers : List Int} {count index : Nat} {lane : Value} {number : Int}
    (length : numbers.length = count)
    (isLane : ((Value.ofInts numbers).toLanes count)[index]? = some lane)
    (isInt : lane.asInt? = some number) : numbers[index]? = some number := by
  rw [← length, Value.toLanes_ofInts, List.getElem?_map] at isLane
  obtain ⟨found, isFound, rfl⟩ := Option.map_eq_some_iff.mp isLane
  exact isFound.trans isInt

/-- Every integer in the exact value of an integer expression is in one of its lanes. -/
theorem exists_valueIn_of_mem_ints (regular : expr.Regular) (truthful : env.Truthful)
    (isInteger : expr.dtype.isInteger = true) {value : Value} (evaluated : expr.evalExact env = some value)
    {number : Int} (member : number ∈ value.ints) :
    ∃ index, expr.valueIn .unbounded env index = some number := by
  obtain ⟨numbers, rfl, length⟩ :=
    (evaluate_kinded regular.typed truthful.kinded evaluated).exists_ofInts isInteger
  rw [Value.ints_ofInts] at member
  obtain ⟨index, inside, isNumber⟩ := List.getElem_of_mem member
  have isLane : ((Value.ofInts numbers).toLanes expr.lanes)[index]? = some (.int number) := by
    rw [Expr.lanes, ← length, Value.toLanes_ofInts, List.getElem?_map,
      List.getElem?_eq_getElem inside, isNumber]
    rfl
  exact ⟨index, valueIn_eq_some.mpr ⟨_, evaluated, _, isLane, rfl⟩⟩

/-- The relation that is found by a simplified difference holds if what is found for the difference does. -/
theorem ReadsDifference.trueOf {difference simplified : Expr}
    (reads : ReadsDifference lhs rhs difference) (isLhs : lhs.Regular) (isRhs : rhs.Regular)
    (truthful : env.Truthful) (isSimplified : Simplified env difference simplified)
    (reliable : evidence.Reliable .unbounded env) :
    TrueOf (evidence.relationToZero simplified) env lhs rhs := by
  intro index left right isLeft isRight
  obtain ⟨leftValue, leftEvaluated, leftLane, isLeftLane, leftInt⟩ := valueIn_eq_some.mp isLeft
  obtain ⟨rightValue, rightEvaluated, rightLane, isRightLane, rightInt⟩ := valueIn_eq_some.mp isRight
  obtain ⟨lefts, rfl, leftLanes⟩ :=
    (evaluate_kinded isLhs.typed truthful.kinded leftEvaluated).exists_ofInts reads.isInteger
  obtain ⟨rights, rfl, rightLanes⟩ :=
    (evaluate_kinded isRhs.typed truthful.kinded rightEvaluated).exists_ofInts
      (reads.same ▸ reads.isInteger)
  have isInteger : simplified.dtype.isInteger = true := by
    obtain ⟨rfl, -⟩ := binary?_eq_some reads.same reads.builds
    rw [isSimplified.keeps.isType]
    exact reads.isInteger
  have vouched : ∀ difference' simplified', binary? .sub lhs rhs = some difference' →
      (fun _ => pure simplified : Expr → Run Expr) difference' {} = some (simplified', {}) →
      Vouches evidence env difference' simplified' := by
    intro difference' simplified' builds ran
    cases reads.builds.symm.trans builds
    cases ran
    have kept := isSimplified.keeps.evaluates
    have lane (value : Value) (evaluated : difference.evalExact env = some value) (number : Int)
        (member : number ∈ value.ints) := exists_valueIn_of_mem_ints isSimplified.regular truthful
      isInteger (kept value evaluated) member
    refine ⟨kept, fun value evaluated number member => ?_, fun value evaluated number member => ?_⟩
    · obtain ⟨index, isNumber⟩ := lane value evaluated number member
      exact reliable.bound simplified index number isNumber
    · obtain ⟨index, isNumber⟩ := lane value evaluated number member
      exact reliable.congruence simplified index number isNumber
  have holds := relate_holds reads.same vouched (by rw [reads.relates]; rfl) leftEvaluated rightEvaluated
    leftLanes (rightLanes.trans (congrArg DataType.lanes reads.same.symm))
  have isPair : (lefts.zip rights)[index]? = some (left, right) := List.getElem?_zip_eq_some.mpr
    ⟨getElem?_of_ofInts leftLanes isLeftLane leftInt, getElem?_of_ofInts rightLanes isRightLane rightInt⟩
  exact List.forall₂_zip holds (List.mem_of_getElem? isPair)

/-- Two expressions that are related outright are not related by their difference. -/
theorem trueOf_outright {relation : Relation}
    (relates : ∀ nested, relate evidence nested lhs rhs = pure relation) :
    TrueOf relation env lhs rhs := by
  intro index left right isLeft isRight
  have related : relate evidence (fun _ => failure) lhs rhs {} = some (relation, {}) := by
    rw [relates]
    rfl
  rcases relate_cases related with rfl | ⟨rfl, rfl⟩ | ⟨first, second, isFirst, isSecond, rfl⟩ |
    ⟨_, _, -, failed, -⟩
  · trivial
  · exact Option.some.inj (isLeft.symm.trans isRight)
  · obtain ⟨_, rfl⟩ := asInt?_eq_some.mp isFirst
    obtain ⟨_, rfl⟩ := asInt?_eq_some.mp isSecond
    rw [valueIn_intConst isLeft, valueIn_intConst isRight]
    exact Relation.holds_ofOrdering first second
  · cases failed

/-! ### Courses -/

theorem AllClear.self (clear : AllClear known env expr) : Clear known env expr := by
  have visited : VisitsAll known.evidence expr.children expr.children :=
    visitsAll_iff.mpr (List.forall₂_same.mpr fun child _ => visits_self known.evidence child)
  have met : Meets known.evidence env expr env (expr.withChildren expr.children) := .node visited
  rw [expr.withChildren_children] at met
  exact clear env expr met

theorem AllClear.operand (clear : AllClear known env expr) {child : Expr}
    (enters : Enters env expr child inner) : AllClear known inner child :=
  fun last form meets => clear last form (.operand enters meets)

mutual

/-- What a visit of an expression ends with is a simplified form of it, if everything that is known is
true and every form that the visit may meet is clear. -/
theorem Visits.simplified {expr result : Expr} {env : Environment} :
    Visits known.evidence expr result → expr.Regular → known.TrueIn env → AllClear known env expr →
      Simplified env expr result
  | @Visits.anew _ _ _ operands visited settles, regular, trueIn, clear => by
    have first : Simplified env expr (expr.withChildren operands) := simplified_withChildren regular
      (visited.simplified (fun _ isChild => regular.child isChild) fun child isChild inner enters =>
        ⟨enters.trueIn clear.self.binds trueIn, clear.operand enters⟩)
    exact first.trans (settles.simplified (.node visited) first.regular trueIn clear)
  | .again _, regular, _, _ => .refl regular

theorem VisitsAll.simplified {exprs results : List Expr} {env : Environment} {node : Expr} :
    VisitsAll known.evidence exprs results → (∀ expr ∈ exprs, expr.Regular) →
      (∀ expr ∈ exprs, ∀ inner, Enters env node expr inner →
        known.TrueIn inner ∧ AllClear known inner expr) →
      List.Forall₂ (fun old new => ∀ inner, Enters env node old inner →
        Simplified inner old new) exprs results
  | .nil, _, _ => .nil
  | .cons first rest, regular, entered =>
    .cons (fun inner enters => first.simplified (regular _ List.mem_cons_self)
        (entered _ List.mem_cons_self inner enters).1 (entered _ List.mem_cons_self inner enters).2)
      (rest.simplified (fun expr member => regular expr (List.mem_cons_of_mem _ member))
        fun expr member => entered expr (List.mem_cons_of_mem _ member))

theorem Settles.simplified {root form result : Expr} {start env : Environment} :
    Settles known.evidence form result →
    Meets known.evidence start root env form → form.Regular → known.TrueIn env →
      AllClear known start root → Simplified env form result
  | .done, _, regular, _, _ => .refl regular
  | @Settles.step _ _ next _ _ operands applies visited settles, meets, regular, trueIn, clear => by
    have isNext := (clear _ _ meets).simplified regular trueIn.typed.truthful applies
      (applies.answered applies meets regular trueIn clear)
    have nextClear : AllClear known env next := fun last form met =>
      clear last form (.next meets applies met)
    have isForm : Simplified env next (next.withChildren operands) :=
      simplified_withChildren isNext.regular (visited.simplified
        (fun _ isChild => isNext.regular.child isChild) fun child isChild inner enters =>
        ⟨enters.trueIn nextClear.self.binds trueIn, nextClear.operand enters⟩)
    exact isNext.trans (isForm.trans (settles.simplified (.next meets applies (.node visited))
      isForm.regular trueIn clear))

theorem Applies.answered {root form next : Expr} {rules : List Rule} {rule : Rule}
    {start env : Environment} :
    Applies known.evidence form rules rule next →
      Applies known.evidence form (rulesFor form) rule next →
      Meets known.evidence start root env form → form.Regular → known.TrueIn env →
        AllClear known start root →
        ∃ answers, Informed .unbounded env answers ∧ rule.Rewrites answers form next
  | .here makes, applies, meets, regular, trueIn, clear =>
    makes.answered rfl applies meets regular trueIn clear
  | .later _ rest, applies, meets, regular, trueIn, clear =>
    rest.answered applies meets regular trueIn clear

theorem Makes.answered {root form next : Expr} {rule : Rule} {made : Option Expr}
    {start env : Environment} :
    Makes known.evidence form rule made → made = some next →
      Applies known.evidence form (rulesFor form) rule next →
      Meets known.evidence start root env form → form.Regular → known.TrueIn env →
        AllClear known start root →
        ∃ answers, Informed .unbounded env answers ∧ rule.Rewrites answers form next
  | .plain makes, isNext, applies, meets, regular, trueIn, clear =>
    ⟨relating (known.measured env) form form .unknown,
      informed_relating trueIn.reliable fun _ _ _ _ _ => trivial, (clear _ _ meets).told applies⟩
  | .counted makes, isNext, applies, meets, regular, trueIn, clear => by
    refine ⟨relating silent form form .unknown,
      informed_relating (reliable_silent _ env) fun _ _ _ _ _ => trivial, ?_⟩
    exact Option.ite_none_right_eq_some.mp (makes.trans isNext)
  | .apart _, isNext, _, _, _, _, _ => by cases isNext
  | .comparing areOperands finds concludes, isNext, applies, meets, regular, trueIn, clear => by
    obtain ⟨isLhs, isRhs⟩ := children_of_comparing applies.mem areOperands
    have isTrue := finds.trueOf (regular.child isLhs) (regular.child isRhs) trueIn
      fun difference reads =>
        ⟨fun last final found => clear last final (.difference meets applies areOperands reads found),
          fun simplified ended => (clear _ _ meets).enclosed applies areOperands reads ended⟩
    refine ⟨relating silent _ _ _, informed_relating (reliable_silent _ env) isTrue, _, _,
      areOperands, ?_⟩
    simp only [relating, and_self, if_true]
    exact concludes.trans isNext

theorem Finds.trueOf {lhs rhs : Expr} {relation : Relation} {env : Environment} :
    Finds known.evidence lhs rhs relation → lhs.Regular → rhs.Regular → known.TrueIn env →
      (∀ difference, ReadsDifference lhs rhs difference → AllClear known env difference ∧
        ∀ simplified, simplified = difference ∨ Visits known.evidence difference simplified →
          (known.measured env).relationToZero simplified = known.evidence.relationToZero simplified) →
      TrueOf relation env lhs rhs
  | .outright relates, _, _, _, _ => trueOf_outright relates
  | .unchanged reads, isLhs, isRhs, trueIn, each => by
    rw [← (each _ reads).2 _ (.inl rfl)]
    exact reads.trueOf isLhs isRhs trueIn.typed.truthful (.refl (reads.regular isLhs isRhs))
      trueIn.reliable
  | .simplified reads visited, isLhs, isRhs, trueIn, each => by
    rw [← (each _ reads).2 _ (.inr visited)]
    exact reads.trueOf isLhs isRhs trueIn.typed.truthful
      (visited.simplified (reads.regular isLhs isRhs) trueIn (each _ reads).1) trueIn.reliable

end

end Reduction

/-! ### Simplification -/

namespace Analyzer

open Reduction

variable {analyzer : Analyzer} {expr : Expr}

/-- Every value that stands for a variable is a regular expression of its type, with the value that the
variable has. -/
def ValuesHold (analyzer : Analyzer) (env : Environment) : Prop :=
  ∀ name value, analyzer.known.values.find? name = some value →
    value.Regular ∧ value.dtype = name.dtype ∧ value.evalExact env = env name

/-- An expression has the same value when its variables are replaced by values that hold. -/
theorem ValuesHold.simplified_prepare (values : analyzer.ValuesHold env) (regular : expr.Regular) :
    Simplified env expr (analyzer.prepare expr) := by
  have renamed := analyzer.known.isolate_renamed regular.typed.namesTyped
  have isolated : (analyzer.known.isolate expr).Regular := regular.renamed renamed fun _ _ => rfl
  have prepared := regular_substituteWithin (fun name value found =>
    ⟨(values name value found).1, (values name value found).2.1⟩)
      (analyzer.known.isolate expr).nodeCount []
      isolated
  have substitutes := substitute_substitutes (fun name value found => (values name value found).2.1)
    isolated.typed.namesTyped
  have unchanged : valuesOf .unbounded env (Replacement.image analyzer.known.values.find? []) = env := by
    funext name
    cases found : analyzer.known.values.find? name with
    | none => simp [valuesOf, Replacement.image, found, evaluate_expr]
    | some value =>
      have holds : value.evaluate .unbounded env = env name := (values name value found).2.2
      simp [valuesOf, Replacement.image, found, holds]
  refine ⟨prepared.1, prepared.2.trans renamed.dtype_eq, fun value evaluated => ?_⟩
  rw [Analyzer.prepare, evalExact, substitutes.evaluate_eq, unchanged,
    renamed.evaluate_eq fun _ _ => rfl]
  exact evaluated

/-- A visit of the expression that is prepared keeps its exact value, and so does simplification. -/
theorem ValuesHold.simplified_reduce (values : analyzer.ValuesHold env)
    (trueIn : analyzer.known.TrueIn env) (regular : expr.Regular)
    (clear : AllClear analyzer.known env (analyzer.prepare expr)) :
    Simplified env expr (analyzer.reduce expr) := by
  have prepared := values.simplified_prepare regular
  exact prepared.trans ((analyzer.visits_reduce expr).simplified prepared.regular trueIn clear)

end Analyzer

end IndexAlgebra
