/-
This file proves which bound variables simplification replaces by their values. The value of a variable
is reduced once, when the variable is bound, and all values are put in the place of their variables at
once. A variable that is bound after a value mentions it therefore stays in that value. Bindings in the
order of their dependencies leave no variable with a value in any simplified expression.

Which variables are free in a simplified expression is read off its load: an expression is as heavy as
each variable that occurs free in it, and neither a substitution nor a rule makes it heavier than the
free variables account for.
-/
import IndexAlgebra.Proofs.SimultaneousSubstitution
import IndexAlgebra.Proofs.TypePreservation
import IndexAlgebra.Proofs.UniqueBinders
import Mathlib.Logic.Relation

namespace IndexAlgebra

/-! ### Free variables and loads -/

namespace Expr

/-- A variable does not occur free in an expression whose load it does not raise. -/
theorem not_mem_freeOccurrences_of_load_le {expr : Expr} {name : Variable} (sizes : Variable → Nat)
    (most : Nat) (light : ∀ size, expr.load (Function.update sizes name size) ≤ most) :
    name ∉ expr.freeOccurrences := by
  intro occurs
  have heavy := size_le_load (Function.update sizes name (most + 1)) occurs
  rw [Function.update_self] at heavy
  exact Nat.not_succ_le_self most (heavy.trans (light (most + 1)))

/-- What is no heavier than an expression has no other free variables. -/
theorem freeOccurrences_subset_of_load_le {result expr : Expr}
    (lighter : ∀ sizes, result.load sizes ≤ expr.load sizes) :
    result.freeOccurrences ⊆ expr.freeOccurrences := by
  intro name occurs
  by_contra absent
  refine not_mem_freeOccurrences_of_load_le (fun _ => 0) (expr.load fun _ => 0) (fun size => ?_) occurs
  refine (lighter _).trans (load_congr fun other isFree => Function.update_of_ne ?_ _ _).le
  exact ne_of_mem_of_not_mem isFree absent

/-- A variable that occurs free after variables are replaced occurs free in what one of them
becomes. -/
theorem exists_landing_of_mem_freeOccurrences {fuel : Nat} {replacement : Replacement}
    {hidden : List Variable} {expr : Expr} {name : Variable} (enough : expr.nodeCount ≤ fuel)
    (occurs : name ∈ (substituteWithin fuel replacement hidden expr).freeOccurrences) :
    ∃ free ∈ expr.freeOccurrences, name ∈ (landing replacement hidden free).freeOccurrences := by
  by_contra! absent
  let landed : Variable → Nat := fun free => (landing replacement hidden free).load fun _ => 0
  refine not_mem_freeOccurrences_of_load_le (fun _ => 0) (expr.load landed)
    (fun size => load_substituteWithin enough fun free isFree => ?_) occurs
  refine (load_congr fun other inside => Function.update_of_ne ?_ _ _).le.trans (le_max_left _ _)
  exact ne_of_mem_of_not_mem inside (absent free isFree)

theorem mem_freeVariables {expr : Expr} {name : Variable} :
    name ∈ expr.freeVariables ↔ name ∈ expr.freeOccurrences := List.mem_eraseDups

end Expr

/-- The expression that a binding gives as the value of its variable. -/
def Binding.value? (binding : Binding) : Option Expr :=
  match binding.drawn with
  | .value expr => some expr
  | .range .. => none

theorem Binding.value?_eq_some {binding : Binding} {expr : Expr} :
    binding.value? = some expr ↔ binding.drawn = .value expr := by
  unfold value?
  cases binding.drawn <;> simp

namespace Analyzer

open IndexAlgebra.Expr

variable {analyzer next : Analyzer} {name : Variable} {binding : Binding}

/-! ### Simplification -/

/-- The rules bring in no variable. -/
theorem freeVariables_reduce_subset (analyzer : Analyzer) (expr : Expr) :
    (analyzer.reduce expr).freeVariables ⊆ (analyzer.prepare expr).freeVariables := by
  obtain ⟨result, progress, stands, -, reports⟩ := analyzer.exists_reduceWithSteps expr
  rw [reduce, reports]
  intro name occurs
  rw [mem_freeVariables] at occurs ⊢
  exact freeOccurrences_subset_of_load_le stands.1.lighter occurs

/-- What is free where the values are put in has no value itself and was free before, or a value that
was put in mentions it. -/
theorem cases_of_mem_prepare {expr : Expr} (typed : expr.NamesTyped)
    (occurs : name ∈ (analyzer.prepare expr).freeVariables) :
    (name ∈ expr.freeVariables ∧ analyzer.known.values.find? name = none) ∨
      ∃ free ∈ expr.freeVariables, ∃ value, analyzer.known.values.find? free = some value ∧
        name ∈ value.freeVariables := by
  rw [mem_freeVariables] at occurs
  obtain ⟨free, isFree, inside⟩ := exists_landing_of_mem_freeOccurrences le_rfl occurs
  rw [(analyzer.known.isolate_renamed typed).freeOccurrences_eq, List.map_id] at isFree
  simp only [mem_freeVariables]
  cases found : analyzer.known.values.find? free with
  | none =>
    have same : name = free := by simpa [landing, found, Variable.expr, freeOccurrences] using inside
    exact .inl (same ▸ ⟨isFree, found⟩)
  | some value => exact .inr ⟨free, isFree, value, found, by simpa [landing, found] using inside⟩

theorem prepare_expr {value : Expr} (found : analyzer.known.values.find? name = some value) :
    analyzer.prepare name.expr = value := by
  have walked : analyzer.prepare name.expr =
      (analyzer.known.values.find? name).getD name.expr := rfl
  rw [walked, found, Option.getD_some]

/-- The variable has a value, and no value mentions the variable. -/
structure Resolves (analyzer : Analyzer) (name : Variable) : Prop where
  hasValue : (analyzer.known.values.find? name).isSome
  unmentioned : ∀ other value, analyzer.known.values.find? other = some value →
    name ∉ value.freeVariables

/-- A variable that is resolved is gone when the values are put in. -/
theorem Resolves.not_mem_prepare (resolves : analyzer.Resolves name) {expr : Expr}
    (typed : expr.NamesTyped) : name ∉ (analyzer.prepare expr).freeVariables := by
  intro occurs
  rcases cases_of_mem_prepare typed occurs with ⟨-, missing⟩ | ⟨free, -, value, found, inside⟩
  · simpa [missing] using resolves.hasValue
  · exact resolves.unmentioned free value found inside

theorem Resolves.not_mem_reduce (resolves : analyzer.Resolves name) {expr : Expr}
    (typed : expr.NamesTyped) : name ∉ (analyzer.reduce expr).freeVariables :=
  fun occurs => resolves.not_mem_prepare typed (analyzer.freeVariables_reduce_subset expr occurs)

/-! ### One binding -/

/-- The variables with a value are those that are bound to one. -/
def ValuesBound (analyzer : Analyzer) : Prop :=
  ∀ name, (analyzer.known.values.find? name).isSome =
    ((analyzer.known.bindings.find? name).bind Binding.value?).isSome

/-- What a variable is bound to and the value that it has are the same in the second state, which may
know of further variables. -/
structure Retained (analyzer next : Analyzer) : Prop where
  bindings : ∀ name binding, analyzer.known.bindings.find? name = some binding →
    next.known.bindings.find? name = some binding
  values : ∀ name value, analyzer.known.values.find? name = some value →
    next.known.values.find? name = some value

theorem Retained.refl (analyzer : Analyzer) : analyzer.Retained analyzer :=
  ⟨fun _ _ => id, fun _ _ => id⟩

theorem Retained.trans {last : Analyzer} (first : analyzer.Retained next) (second : next.Retained last) :
    analyzer.Retained last :=
  ⟨fun name binding found => second.bindings name binding (first.bindings name binding found),
    fun name value found => second.values name value (first.values name value found)⟩

/-- A binding that overrides nothing is there already, or it is stored with what follows from it for a
variable that has not been bound. -/
theorem bind_false_cases (bound : analyzer.bind name binding false = .ok next) :
    analyzer.known.bindings.find? name = some binding ∧ next = analyzer ∨
      analyzer.known.bindings.find? name = none ∧ ∃ derived,
        analyzer.consequences binding.drawn = .ok derived ∧
        next = analyzer.withConsequences name binding derived := by
  rw [bind_eq_bindDrawing, bindDrawing] at bound
  cases found : analyzer.known.bindings.find? name with
  | none =>
    have draws : analyzer.drawn? name binding false = some binding.drawn := by simp [drawn?, found]
    rw [draws] at bound
    obtain ⟨derived, isDerived, isNext⟩ := drawing_eq_ok bound
    exact .inr ⟨rfl, derived, isDerived, isNext⟩
  | some existing =>
    have draws : analyzer.drawn? name binding false = none := by simp [drawn?, found]
    rw [draws] at bound
    simp only [bindUndrawn, found] at bound
    by_cases same : existing = binding
    · rw [if_pos same] at bound
      exact .inl ⟨congrArg some same, (Except.ok.inj bound).symm⟩
    · rw [if_neg same] at bound
      cases bound

theorem find?_values_withConsequences (derived : Consequences) (other : Variable) :
    (analyzer.withConsequences name binding derived).known.values.find? other =
      if other = name then derived.value else analyzer.known.values.find? other :=
  Table.find?_assign ..

theorem find?_bindings_withConsequences (derived : Consequences) (other : Variable) :
    (analyzer.withConsequences name binding derived).known.bindings.find? other =
      if other = name then some binding else analyzer.known.bindings.find? other :=
  Table.find?_insert ..

theorem isSome_value_of_consequences {derived : Consequences}
    (draws : analyzer.consequences binding.drawn = .ok derived) :
    derived.value.isSome = binding.value?.isSome := by
  unfold Binding.value?
  cases drawn : binding.drawn with
  | value expr =>
    rw [drawn, consequences_value] at draws
    cases draws
    rfl
  | range first extent =>
    cases stored : derived.value with
    | none => rfl
    | some value =>
      obtain ⟨expr, isValue, -⟩ := cases_of_value draws stored
      cases drawn.symm.trans isValue

theorem ValuesBound.bind (valuesBound : analyzer.ValuesBound)
    (bound : analyzer.bind name binding false = .ok next) : next.ValuesBound := by
  rcases bind_false_cases bound with ⟨-, rfl⟩ | ⟨-, derived, draws, rfl⟩
  · exact valuesBound
  · intro other
    rw [find?_values_withConsequences, find?_bindings_withConsequences]
    split
    · exact isSome_value_of_consequences draws
    · exact valuesBound other

theorem ValuesBound.retained_bind (valuesBound : analyzer.ValuesBound)
    (bound : analyzer.bind name binding false = .ok next) : analyzer.Retained next := by
  rcases bind_false_cases bound with ⟨-, rfl⟩ | ⟨missing, derived, -, rfl⟩
  · exact .refl next
  · refine ⟨fun other stored found => ?_, fun other value found => ?_⟩
    · rw [find?_bindings_withConsequences, if_neg]
      · exact found
      · rintro rfl
        exact absurd (missing.symm.trans found) (by simp)
    · rw [find?_values_withConsequences, if_neg]
      · exact found
      · rintro rfl
        simpa [missing, found] using valuesBound other

/-- A variable is bound to what it is told to be bound to. -/
theorem find?_bindings_of_bind (bound : analyzer.bind name binding false = .ok next) :
    next.known.bindings.find? name = some binding := by
  rcases bind_false_cases bound with ⟨found, rfl⟩ | ⟨-, derived, -, rfl⟩
  · exact found
  · rw [find?_bindings_withConsequences, if_pos rfl]

/-- A value comes from before, or it is what the variable is bound to, reduced. -/
theorem cases_of_value_bind (bound : analyzer.bind name binding false = .ok next) {other : Variable}
    {value : Expr} (found : next.known.values.find? other = some value) :
    analyzer.known.values.find? other = some value ∨
      other = name ∧ ∃ expr ∈ binding.value?, value = analyzer.reduce expr := by
  rcases bind_false_cases bound with ⟨-, rfl⟩ | ⟨-, derived, draws, rfl⟩
  · exact .inl found
  · rw [find?_values_withConsequences] at found
    split at found
    next same =>
      obtain ⟨expr, drawn, isReduced⟩ := cases_of_value draws found
      exact .inr ⟨same, expr, Binding.value?_eq_some.mpr drawn, isReduced⟩
    next => exact .inl found

/-- A variable that is resolved stays so when another expression is bound. -/
theorem Resolves.bind (resolves : analyzer.Resolves name) (valuesBound : analyzer.ValuesBound)
    {other : Variable} (bound : analyzer.bind other binding false = .ok next)
    (typed : ∀ expr ∈ binding.value?, expr.NamesTyped) : next.Resolves name := by
  constructor
  · obtain ⟨value, found⟩ := Option.isSome_iff_exists.mp resolves.hasValue
    rw [(valuesBound.retained_bind bound).values name value found]
    rfl
  · intro subject value found
    rcases cases_of_value_bind bound found with before | ⟨-, expr, isValue, rfl⟩
    · exact resolves.unmentioned subject value before
    · exact resolves.not_mem_reduce (typed expr isValue)

/-! ### Bindings in turn -/

/-- Binds variables in turn and overrides nothing. -/
def bindAll (analyzer : Analyzer) (bindings : List (Variable × Binding)) : Except Fault Analyzer :=
  bindings.foldlM (fun state (name, binding) => state.bind name binding false) analyzer

theorem bindAll_cons_eq_ok {later : List (Variable × Binding)} {final : Analyzer} :
    analyzer.bindAll ((name, binding) :: later) = .ok final ↔
      ∃ next, analyzer.bind name binding false = .ok next ∧ next.bindAll later = .ok final := by
  rw [bindAll, List.foldlM_cons, bind_eq_ok_iff]
  rfl

theorem bindAll_append_eq_ok {earlier later : List (Variable × Binding)} {final : Analyzer} :
    analyzer.bindAll (earlier ++ later) = .ok final ↔
      ∃ between, analyzer.bindAll earlier = .ok between ∧ between.bindAll later = .ok final := by
  rw [bindAll, List.foldlM_append, bind_eq_ok_iff]
  rfl

section

variable {bindings : List (Variable × Binding)} {final : Analyzer}

theorem ValuesBound.bindAll (valuesBound : analyzer.ValuesBound)
    (ran : analyzer.bindAll bindings = .ok final) : final.ValuesBound := by
  induction bindings generalizing analyzer with
  | nil => cases ran; exact valuesBound
  | cons first later inductionHypothesis =>
    obtain ⟨next, bound, ran⟩ := bindAll_cons_eq_ok.mp ran
    exact inductionHypothesis (valuesBound.bind bound) ran

theorem ValuesBound.retained_bindAll (valuesBound : analyzer.ValuesBound)
    (ran : analyzer.bindAll bindings = .ok final) : analyzer.Retained final := by
  induction bindings generalizing analyzer with
  | nil => cases ran; exact .refl _
  | cons first later inductionHypothesis =>
    obtain ⟨next, bound, ran⟩ := bindAll_cons_eq_ok.mp ran
    exact (valuesBound.retained_bind bound).trans (inductionHypothesis (valuesBound.bind bound) ran)

/-- One of the bindings binds the variable to a value. -/
def BindsValue (bindings : List (Variable × Binding)) (name : Variable) : Prop :=
  ∃ pair ∈ bindings, pair.1 = name ∧ pair.2.value?.isSome

instance (bindings : List (Variable × Binding)) (name : Variable) :
    Decidable (BindsValue bindings name) :=
  inferInstanceAs (Decidable (∃ pair ∈ bindings, pair.1 = name ∧ pair.2.value?.isSome))

/-- A variable that is bound to a value has a value in the end. -/
theorem BindsValue.hasValue (binds : BindsValue bindings name) (valuesBound : analyzer.ValuesBound)
    (ran : analyzer.bindAll bindings = .ok final) : (final.known.values.find? name).isSome := by
  obtain ⟨⟨_, binding⟩, member, rfl, isValue⟩ := binds
  obtain ⟨earlier, later, rfl⟩ := List.append_of_mem member
  obtain ⟨before, ranEarlier, ran⟩ := bindAll_append_eq_ok.mp ran
  obtain ⟨next, bound, ranLater⟩ := bindAll_cons_eq_ok.mp ran
  have nextBound := (valuesBound.bindAll ranEarlier).bind bound
  have stored := (nextBound.retained_bindAll ranLater).bindings _ binding (find?_bindings_of_bind bound)
  rw [nextBound.bindAll ranLater, stored]
  exact isValue

/-- The variables in what the bindings give as values have their own types. -/
def ValuesNamed (bindings : List (Variable × Binding)) : Prop :=
  ∀ pair ∈ bindings, ∀ expr ∈ pair.2.value?, expr.NamesTyped

theorem ValuesNamed.mono {bindings others : List (Variable × Binding)} (named : ValuesNamed bindings)
    (within : others ⊆ bindings) : ValuesNamed others :=
  fun pair member => named pair (within member)

theorem Resolves.bindAll (resolves : analyzer.Resolves name) (valuesBound : analyzer.ValuesBound)
    (ran : analyzer.bindAll bindings = .ok final) (named : ValuesNamed bindings) :
    final.Resolves name := by
  induction bindings generalizing analyzer with
  | nil => cases ran; exact resolves
  | cons first later inductionHypothesis =>
    obtain ⟨next, bound, ran⟩ := bindAll_cons_eq_ok.mp ran
    exact inductionHypothesis (resolves.bind valuesBound bound (named first List.mem_cons_self))
      (valuesBound.bind bound) ran (named.mono (List.subset_cons_self _ _))

/-- A variable gets its value from one of the bindings. -/
theorem exists_binding_of_value (ran : analyzer.bindAll bindings = .ok final) {value : Expr}
    (missing : analyzer.known.values.find? name = none)
    (found : final.known.values.find? name = some value) :
    ∃ earlier binding later before next, bindings = earlier ++ (name, binding) :: later ∧
      analyzer.bindAll earlier = .ok before ∧ before.bind name binding false = .ok next ∧
      next.bindAll later = .ok final ∧ ∃ expr ∈ binding.value?,
        next.known.values.find? name = some (before.reduce expr) := by
  induction bindings generalizing analyzer with
  | nil =>
    cases ran
    exact absurd (missing.symm.trans found) (by simp)
  | cons first later inductionHypothesis =>
    obtain ⟨next, bound, ran⟩ := bindAll_cons_eq_ok.mp ran
    cases stored : next.known.values.find? name with
    | none =>
      obtain ⟨earlier, binding, later', before, next', rfl, ranEarlier, rest⟩ :=
        inductionHypothesis ran stored
      exact ⟨first :: earlier, binding, later', before, next', rfl,
        bindAll_cons_eq_ok.mpr ⟨next, bound, ranEarlier⟩, rest⟩
    | some own =>
      rcases cases_of_value_bind bound stored with before | ⟨rfl, expr, isValue, rfl⟩
      · exact absurd (missing.symm.trans before) (by simp)
      · exact ⟨[], first.2, later, analyzer, next, rfl, rfl, bound, ran, expr, isValue, stored⟩

end

/-! ### Dependencies -/

/-- One of the bindings gives the variable the value of an expression with the other variable in it. -/
def Mentions (bindings : List (Variable × Binding)) (name other : Variable) : Prop :=
  ∃ pair ∈ bindings, pair.1 = name ∧ ∃ expr ∈ pair.2.value?, other ∈ expr.freeVariables

/-- No variable reaches itself through the expressions that variables are bound to. -/
def Acyclic (bindings : List (Variable × Binding)) : Prop :=
  ∀ name, ¬Relation.TransGen (Mentions bindings) name name

/-- No binding gives a variable that an expression bound before mentions. -/
def InOrder (bindings : List (Variable × Binding)) : Prop :=
  bindings.Pairwise fun first second => ∀ expr ∈ first.2.value?, second.1 ∉ expr.freeVariables

/-- Whenever the variable is bound, no value that there is by then mentions it. -/
def BoundInTime (limits : Limits) (bindings : List (Variable × Binding)) (name : Variable) : Prop :=
  ∀ earlier binding later before, bindings = earlier ++ (name, binding) :: later →
    ({ limits } : Analyzer).bindAll earlier = .ok before →
    ∀ other value, before.known.values.find? other = some value → name ∉ value.freeVariables

/-- Bindings are acyclic if what an expression mentions ranks below the variable bound to it. -/
theorem acyclic_of_rank {bindings : List (Variable × Binding)} (rank : Variable → Nat)
    (falls : ∀ pair ∈ bindings, ∀ expr ∈ pair.2.value?, ∀ other ∈ expr.freeVariables,
      rank other < rank pair.1) : Acyclic bindings := by
  have below : ∀ {first last}, Relation.TransGen (Mentions bindings) first last →
      rank last < rank first := by
    have each : ∀ {name other}, Mentions bindings name other → rank other < rank name := by
      rintro _ other ⟨pair, member, rfl, expr, isValue, mentioned⟩
      exact falls pair member expr isValue other mentioned
    intro first last reaches
    induction reaches with
    | single mentions => exact each mentions
    | tail _ mentions inductionHypothesis => exact (each mentions).trans inductionHypothesis
  exact fun name cycle => Nat.lt_irrefl _ (below cycle)

variable {limits : Limits} {bindings : List (Variable × Binding)} {final : Analyzer}

theorem valuesBound_start (limits : Limits) : ({ limits } : Analyzer).ValuesBound := fun _ => rfl

/-- What a value mentions is reached from its variable. -/
def ValuesReached (bindings : List (Variable × Binding)) (analyzer : Analyzer) : Prop :=
  ∀ name value, analyzer.known.values.find? name = some value →
    ∀ other ∈ value.freeVariables, Relation.TransGen (Mentions bindings) name other

theorem ValuesReached.bind (reached : ValuesReached bindings analyzer)
    (bound : analyzer.bind name binding false = .ok next) (member : (name, binding) ∈ bindings)
    (named : ValuesNamed bindings) : ValuesReached bindings next := by
  intro subject value found other inside
  rcases cases_of_value_bind bound found with before | ⟨rfl, expr, isValue, rfl⟩
  · exact reached subject value before other inside
  · have mentions : ∀ free ∈ expr.freeVariables, Mentions bindings subject free :=
      fun free isFree => ⟨_, member, rfl, expr, isValue, isFree⟩
    rcases cases_of_mem_prepare (named _ member expr isValue)
      (analyzer.freeVariables_reduce_subset expr inside) with ⟨own, -⟩ | ⟨free, isFree, value, stored, within⟩
    · exact .single (mentions other own)
    · exact .head (mentions free isFree) (reached free value stored other within)

/-- In every state that bindings lead to, values mention what is reached through these bindings. -/
theorem valuesReached_bindAll (ran : ({ limits } : Analyzer).bindAll bindings = .ok final)
    (named : ValuesNamed bindings) : ValuesReached bindings final := by
  have start : ValuesReached bindings ({ limits } : Analyzer) := fun _ _ found => by cases found
  have steps : ∀ remaining ⊆ bindings, ∀ analyzer : Analyzer, ValuesReached bindings analyzer →
      analyzer.bindAll remaining = .ok final → ValuesReached bindings final := by
    intro remaining
    induction remaining with
    | nil =>
      intro _ analyzer reached ran
      cases ran
      exact reached
    | cons first later inductionHypothesis =>
      intro within analyzer reached ran
      obtain ⟨next, bound, ran⟩ := bindAll_cons_eq_ok.mp ran
      exact inductionHypothesis (List.subset_of_cons_subset within) next
        (reached.bind bound (within List.mem_cons_self) named) ran
  exact steps bindings (List.Subset.refl _) _ start ran

/-- Bindings in the order of their dependencies bind every variable in time. -/
theorem InOrder.boundInTime (inOrder : InOrder bindings) (named : ValuesNamed bindings)
    (name : Variable) : BoundInTime limits bindings name := by
  rintro earlier binding later before rfl ran other value found inside
  have reached := valuesReached_bindAll ran (named.mono (List.subset_append_left _ _))
  obtain ⟨last, -, pair, member, -, expr, isValue, mentioned⟩ :=
    Relation.TransGen.tail'_iff.mp (reached other value found name inside)
  exact (List.pairwise_append.mp inOrder).2.2 pair member _ List.mem_cons_self expr isValue mentioned

/-! ### Variables with a value -/

/-- A variable that is bound to a value is resolved exactly if it was bound in time. -/
theorem resolves_iff_boundInTime (ran : ({ limits } : Analyzer).bindAll bindings = .ok final)
    (named : ValuesNamed bindings) (notOwn : ¬Mentions bindings name name)
    (binds : BindsValue bindings name) : final.Resolves name ↔ BoundInTime limits bindings name := by
  constructor
  · -- a value that mentions the variable when it is bound is there to the end
    rintro resolves earlier binding later before rfl ranEarlier other value found
    obtain ⟨between, ranBetween, ranLater⟩ := bindAll_append_eq_ok.mp ran
    cases ranEarlier.symm.trans ranBetween
    have valuesBound : before.ValuesBound := (valuesBound_start limits).bindAll ranEarlier
    exact resolves.unmentioned other value
      ((valuesBound.retained_bindAll ranLater).values other value found)
  · intro inTime
    obtain ⟨value, found⟩ :=
      Option.isSome_iff_exists.mp (binds.hasValue (valuesBound_start limits) ran)
    obtain ⟨earlier, binding, later, before, next, rfl, ranEarlier, bound, ranLater, expr, isValue, stored⟩ :=
      exists_binding_of_value ran rfl found
    have unmentioned := inTime earlier binding later before rfl ranEarlier
    have valuesBound : before.ValuesBound := (valuesBound_start limits).bindAll ranEarlier
    have isBinding : (name, binding) ∈ earlier ++ (name, binding) :: later := by simp
    have notInOwn : name ∉ (before.reduce expr).freeVariables := by
      intro inside
      rcases cases_of_mem_prepare (named _ isBinding expr isValue)
        (before.freeVariables_reduce_subset expr inside) with ⟨own, -⟩ | ⟨free, -, value, had, within⟩
      · exact notOwn ⟨_, isBinding, rfl, expr, isValue, own⟩
      · exact unmentioned free value had within
    have resolves : next.Resolves name := by
      refine ⟨by rw [stored]; rfl, fun other value' found' => ?_⟩
      rcases cases_of_value_bind bound found' with had | ⟨rfl, -⟩
      · exact unmentioned other value' had
      · cases stored.symm.trans found'
        exact notInOwn
    exact resolves.bindAll (valuesBound.bind bound) ranLater
      (named.mono (List.subset_append_of_subset_right _ (List.subset_cons_self _ _)))

/-- Bindings in the order of their dependencies leave no variable that is bound to a value in any
simplified expression. -/
theorem reduce_substitutes_of_inOrder (ran : ({ limits } : Analyzer).bindAll bindings = .ok final)
    (named : ValuesNamed bindings) (acyclic : Acyclic bindings) (inOrder : InOrder bindings)
    (binds : BindsValue bindings name) {expr : Expr} (typed : expr.NamesTyped) :
    name ∉ (final.reduce expr).freeVariables :=
  ((resolves_iff_boundInTime ran named (fun own => acyclic name (.single own)) binds).mpr
    (inOrder.boundInTime named name)).not_mem_reduce typed

/-- Of a variable that is bound to a value nothing is left where the values are put in, in any
expression, exactly if the variable was bound in time, in whatever order the other variables were bound.
Then no simplified expression mentions the variable. -/
theorem prepare_substitutes_iff_boundInTime
    (ran : ({ limits } : Analyzer).bindAll bindings = .ok final) (named : ValuesNamed bindings)
    (acyclic : Acyclic bindings) (binds : BindsValue bindings name) :
    ((∀ expr, expr.NamesTyped → name ∉ (final.prepare expr).freeVariables) ↔
      BoundInTime limits bindings name) ∧
    (BoundInTime limits bindings name →
      ∀ expr, expr.NamesTyped → name ∉ (final.reduce expr).freeVariables) := by
  have hasValue := binds.hasValue (valuesBound_start limits) ran
  have resolved := resolves_iff_boundInTime ran named (fun own => acyclic name (.single own)) binds
  refine ⟨⟨fun absent => ?_, fun inTime expr => ?_⟩, fun inTime expr => ?_⟩
  · refine resolved.mp ⟨hasValue, fun other value found => ?_⟩
    rw [← prepare_expr found]
    exact absent other.expr (namesTyped_expr other)
  · exact (resolved.mpr inTime).not_mem_prepare
  · exact (resolved.mpr inTime).not_mem_reduce

/-- With `y` bound to `z * 2` and then `x` to `y + 1`, nothing is left of `y`. -/
theorem prepare_substitutes_iff_boundInTime_ordered :
    let x : Variable := ⟨"x", .int32, false⟩
    let y : Variable := ⟨"y", .int32, false⟩
    let z : Variable := ⟨"z", .int32, false⟩
    let bindings : List (Variable × Binding) :=
      [(y, .value (.binary .int32 .mul z.expr (.intConst .int32 2))),
        (x, .value (.binary .int32 .add y.expr (.intConst .int32 1)))]
    ∃ final, ({} : Analyzer).bindAll bindings = .ok final ∧ ValuesNamed bindings ∧ Acyclic bindings ∧
      BindsValue bindings y ∧ BoundInTime {} bindings y ∧
      (∀ expr, expr.NamesTyped → y ∉ (final.prepare expr).freeVariables) ∧
      ∀ expr, expr.NamesTyped → y ∉ (final.reduce expr).freeVariables := by
  intro x y z bindings
  have runs : (({} : Analyzer).bindAll bindings).toOption.isSome := by decide +kernel
  cases ran : ({} : Analyzer).bindAll bindings with
  | error fault => simp [ran, Except.toOption] at runs
  | ok final =>
    have wellTyped : ∀ pair ∈ bindings, ∀ expr ∈ pair.2.value?, expr.WellTyped := by decide
    have named : ValuesNamed bindings := fun pair member expr isValue =>
      (wellTyped pair member expr isValue).namesTyped
    have acyclic : Acyclic bindings :=
      acyclic_of_rank (fun name => if name = x then 2 else if name = y then 1 else 0) (by decide)
    have binds : BindsValue bindings y := by decide
    have inTime : BoundInTime {} bindings y :=
      InOrder.boundInTime (by unfold InOrder; decide) named y
    obtain ⟨substitutes, simplified⟩ := prepare_substitutes_iff_boundInTime ran named acyclic binds
    exact ⟨final, rfl, named, acyclic, binds, inTime, substitutes.mpr inTime, simplified inTime⟩

/-- With `x` bound to `y + 1` and then `y` to `z * 2`, the simplified form of `x` is still `y + 1`. -/
theorem not_reduce_substitutes :
    let x : Variable := ⟨"x", .int32, false⟩
    let y : Variable := ⟨"y", .int32, false⟩
    let z : Variable := ⟨"z", .int32, false⟩
    let sum : Expr := .binary .int32 .add y.expr (.intConst .int32 1)
    let bindings : List (Variable × Binding) :=
      [(x, .value sum), (y, .value (.binary .int32 .mul z.expr (.intConst .int32 2)))]
    ∃ final, ({} : Analyzer).bindAll bindings = .ok final ∧ ValuesNamed bindings ∧ Acyclic bindings ∧
      BindsValue bindings y ∧ final.reduce x.expr = sum ∧ y ∈ (final.reduce x.expr).freeVariables := by
  intro x y z sum bindings
  have runs : (({} : Analyzer).bindAll bindings).toOption.any fun final =>
      decide (final.reduce x.expr = sum) := by decide +kernel
  cases ran : ({} : Analyzer).bindAll bindings with
  | error fault => simp [ran, Except.toOption] at runs
  | ok final =>
    have reduced : final.reduce x.expr = sum := by simpa [ran, Except.toOption] using runs
    have wellTyped : ∀ pair ∈ bindings, ∀ expr ∈ pair.2.value?, expr.WellTyped := by decide
    refine ⟨final, rfl, fun pair member expr isValue => (wellTyped pair member expr isValue).namesTyped,
      acyclic_of_rank (fun name => if name = x then 2 else if name = y then 1 else 0) (by decide),
      by decide, reduced, ?_⟩
    rw [reduced]
    decide

end Analyzer

end IndexAlgebra
