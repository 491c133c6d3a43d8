/-
This file takes the binding of a variable apart. What is known takes part in it at one point only,
where the consequences of the binding are drawn; all that follows reads and writes the tables. The
binding is therefore stated again for any way of drawing consequences, and two ways lead to the same
answer and the same tables exactly if what they draw is the same.
-/
import IndexAlgebra.Analyzer.Bindings

namespace IndexAlgebra

namespace Table

variable {α : Type}

theorem erase_erase (table : Table α) (name : Variable) :
    (table.erase name).erase name = table.erase name := by
  unfold erase
  rw [List.filter_filter]
  simp

theorem erase_insert (table : Table α) (name : Variable) (value : α) :
    (table.insert name value).erase name = table.erase name := by
  have head : (table.insert name value).erase name = (table.erase name).erase name := by
    simp [insert, erase]
  rw [head, erase_erase]

theorem insert_insert (table : Table α) (name : Variable) (first second : α) :
    (table.insert name first).insert name second = table.insert name second := by
  rw [insert, erase_insert, insert]

theorem find?_assign (table : Table α) (name other : Variable) (value? : Option α) :
    (table.assign name value?).find? other =
      if other = name then value? else table.find? other := by
  cases value? with
  | none => exact find?_erase table name other
  | some value => exact find?_insert table name other value

theorem insert_inj {table : Table α} {name : Variable} {first second : α} :
    table.insert name first = table.insert name second ↔ first = second := by
  refine ⟨?_, fun equal => by rw [equal]⟩
  intro equal
  have found := congrArg (fun updated => Table.find? updated name) equal
  simpa [find?_insert] using found

theorem assign_inj {table : Table α} {name : Variable} {first? second? : Option α} :
    table.assign name first? = table.assign name second? ↔ first? = second? := by
  refine ⟨?_, fun equal => by rw [equal]⟩
  intro equal
  have found := congrArg (fun updated => Table.find? updated name) equal
  simpa [find?_assign] using found

end Table

/-- A computation in two parts succeeds if both parts do. -/
theorem bind_eq_ok_iff {α β : Type} {first : Except Fault α} {rest : α → Except Fault β} {last : β} :
    first >>= rest = .ok last ↔ ∃ middle, first = .ok middle ∧ rest middle = .ok last := by
  cases first with
  | error fault =>
    refine ⟨fun failed => ?_, fun ⟨_, failed, _⟩ => ?_⟩
    · cases failed
    · cases failed
  | ok middle =>
    refine ⟨fun isLast => ⟨middle, rfl, isLast⟩, fun ⟨_, same, isLast⟩ => ?_⟩
    cases same
    exact isLast

namespace Binding

/-- The binding whose consequences are drawn: a range with a single value is that value. -/
def drawn : Binding → Binding
  | .range first extent => if extent.isInt 1 then .value first else .range first extent
  | .value expr => .value expr

end Binding

namespace Analyzer

variable (analyzer : Analyzer) (name : Variable) (binding : Binding) (allowOverride : Bool)

/-! ### Drawing consequences -/

theorem consequences_value (expr : Expr) : analyzer.consequences (.value expr) =
    .ok ⟨analyzer.known.inferBound (analyzer.reduce expr),
      some (analyzer.known.inferCongruence (analyzer.reduce expr)),
      some (analyzer.reduce expr), none⟩ := rfl

theorem consequences_range {first extent last : Expr}
    (isLast : lastOfRange first extent = .ok last) :
    analyzer.consequences (.range first extent) =
      .ok ⟨⟨(analyzer.known.inferBound first).lower,
          (analyzer.known.inferBound (analyzer.reduce last)).upper⟩,
        none, none, some (.between (analyzer.reduce first) (analyzer.reduce last))⟩ := by
  unfold consequences
  simp only [isLast]
  rfl

/-! ### Storing consequences -/

/-- The bound that a new binding of the variable is refused for, if it has this bound. A variable
that is bound already may take any bound. -/
def refusing? (bound : Bound) : Option Bound :=
  match analyzer.known.bounds.find? name with
  | some existing =>
    if !allowOverride && (analyzer.known.bindings.find? name).isNone && existing != bound then
      some existing
    else none
  | none => none

/-- The analyzer with a binding and its consequences stored. -/
def withConsequences (derived : Consequences) : Analyzer :=
  { analyzer with
    known := { analyzer.known with
      bounds := analyzer.known.bounds.insert name derived.bound
      congruences := analyzer.known.congruences.assign name derived.congruence
      values := analyzer.known.values.assign name derived.value
      ranges := analyzer.known.ranges.assign name derived.range } }.withBinding name binding

/-- Stores the consequences of a binding, unless the bound that the variable has refuses them. -/
def store (derived : Consequences) : Except Fault Analyzer :=
  match analyzer.refusing? name allowOverride derived.bound with
  | some existing => .error (.boundConflict name existing derived.bound)
  | none => .ok (analyzer.withConsequences name binding derived)

theorem assign_eq : analyzer.assign name binding allowOverride =
    analyzer.consequences binding >>= analyzer.store name binding allowOverride := by
  unfold assign
  congr 1
  funext derived
  unfold store refusing?
  dsimp only
  cases analyzer.known.bounds.find? name with
  | none => rfl
  | some existing =>
    dsimp only
    by_cases refused : (!allowOverride && (analyzer.known.bindings.find? name).isNone &&
        existing != derived.bound) = true
    · rw [if_pos refused, if_pos refused]
      rfl
    · rw [if_neg refused, if_neg refused]
      rfl

@[simp]
theorem withBinding_withBinding (first second : Binding) :
    (analyzer.withBinding name first).withBinding name second =
      analyzer.withBinding name second := by
  simp [withBinding, Table.insert_insert]

@[simp]
theorem withConsequences_withBinding (other : Binding) (derived : Consequences) :
    (analyzer.withConsequences name binding derived).withBinding name other =
      analyzer.withConsequences name other derived := by
  simp [withConsequences]

/-- The stored tables show each consequence. -/
theorem withConsequences_inj {first second : Consequences} :
    analyzer.withConsequences name binding first = analyzer.withConsequences name binding second ↔
      first = second := by
  refine ⟨?_, fun equal => by rw [equal]⟩
  intro equal
  have tables := congrArg Analyzer.known equal
  simp only [withConsequences, withBinding, Knowledge.mk.injEq, Table.insert_inj, Table.assign_inj,
    true_and, and_true] at tables
  obtain ⟨bounds, congruences, values, ranges⟩ := tables
  cases first
  cases second
  simp only at bounds congruences values ranges
  rw [bounds, congruences, values, ranges]

/-! ### Binding with given consequences -/

/-- The binding whose consequences are drawn when the variable is bound. There is none if the
variable is bound to it already, or is bound to something else and must not be bound again. -/
def drawn? : Option Binding :=
  match analyzer.known.bindings.find? name with
  | some existing =>
    if existing = binding then none
    else if !allowOverride then none
    else if existing = binding.drawn then none
    else some binding.drawn
  | none => some binding.drawn

/-- What binding the variable leads to when no consequences are drawn. -/
def bindUndrawn : Except Fault Analyzer :=
  match analyzer.known.bindings.find? name with
  | some existing =>
    if existing = binding then .ok analyzer
    else if !allowOverride then .error (.bindingConflict name existing binding)
    else .ok (analyzer.withBinding name binding)
  | none => .ok (analyzer.withBinding name binding)

/-- Binds a variable where the consequences of a binding are the given ones. -/
def bindDrawing (draw : Binding → Except Fault Consequences) : Except Fault Analyzer :=
  match analyzer.drawn? name binding allowOverride with
  | some drawn => draw drawn >>= analyzer.store name binding allowOverride
  | none => analyzer.bindUndrawn name binding allowOverride

/-- A range with a single value is stored as the range once the value is. -/
theorem store_withBinding (derived : Consequences) (other : Binding) :
    (analyzer.store name other allowOverride derived).map (fun next =>
      next.withBinding name binding) = analyzer.store name binding allowOverride derived := by
  unfold store
  split
  · rfl
  · simp [Except.map]

theorem assign_withBinding (other : Binding) :
    (analyzer.assign name other allowOverride >>= fun next => pure (next.withBinding name binding)) =
      analyzer.consequences other >>= analyzer.store name binding allowOverride := by
  rw [assign_eq]
  cases analyzer.consequences other with
  | error fault => rfl
  | ok derived => exact store_withBinding analyzer name binding allowOverride derived other

/-- What is known takes part in a binding through the consequences that are drawn from it. -/
theorem bind_eq_bindDrawing : analyzer.bind name binding allowOverride =
    analyzer.bindDrawing name binding allowOverride analyzer.consequences := by
  unfold bind bindDrawing drawn? bindUndrawn
  cases analyzer.known.bindings.find? name with
  | none =>
    cases binding with
    | value expr => exact assign_eq ..
    | range first extent =>
      dsimp only [Binding.drawn]
      split
      next single => exact assign_withBinding analyzer name _ allowOverride (.value first)
      next => exact assign_eq ..
  | some existing =>
    dsimp only
    by_cases same : existing = binding
    · rw [if_pos same, if_pos same]
      dsimp only
      rw [if_pos same]
      rfl
    rw [if_neg same, if_neg same]
    by_cases refused : (!allowOverride) = true
    · rw [if_pos refused, if_pos refused]
      dsimp only
      rw [if_neg same, if_pos refused]
      rfl
    rw [if_neg refused, if_neg refused]
    cases binding with
    | value expr =>
      rw [if_neg (show ¬existing = (Binding.value expr).drawn from same)]
      exact assign_eq ..
    | range first extent =>
      dsimp only [Binding.drawn]
      split
      next single =>
        by_cases already : existing = .value first
        · rw [if_pos (congrArg some already), if_pos already]
          rfl
        · rw [if_neg (by simpa using already), if_neg already]
          exact assign_withBinding analyzer name _ allowOverride (.value first)
      next => exact assign_eq ..

/-! ### Telling consequences apart -/

/-- The binding shows no difference between two consequences. Either there is none, or the bound of
the variable refuses both and the two bounds read the same. -/
def Indistinct (first second : Consequences) : Prop :=
  first = second ∨
    first.bound.text = second.bound.text ∧
      (analyzer.refusing? name allowOverride first.bound).isSome ∧
      (analyzer.refusing? name allowOverride second.bound).isSome

theorem existing_of_refusing? {bound existing : Bound}
    (refusing : analyzer.refusing? name allowOverride bound = some existing) :
    analyzer.known.bounds.find? name = some existing := by
  unfold refusing? at refusing
  split at refusing
  next other found =>
    split at refusing
    · rw [found]
      exact refusing
    · exact absurd refusing (by simp)
  next => exact absurd refusing (by simp)

theorem store_eq_iff {first second : Consequences} :
    analyzer.store name binding allowOverride first =
      analyzer.store name binding allowOverride second ↔
      analyzer.Indistinct name allowOverride first second := by
  unfold store Indistinct
  cases left : analyzer.refusing? name allowOverride first.bound with
  | none =>
    cases right : analyzer.refusing? name allowOverride second.bound with
    | none => simp [withConsequences_inj]
    | some existing =>
      have different : first ≠ second := by
        rintro rfl
        exact absurd (left.symm.trans right) (by simp)
      simp [different]
  | some existing =>
    cases right : analyzer.refusing? name allowOverride second.bound with
    | none =>
      have different : first ≠ second := by
        rintro rfl
        exact absurd (left.symm.trans right) (by simp)
      simp [different]
    | some other =>
      have same : existing = other := Option.some.inj
        ((existing_of_refusing? analyzer name allowOverride left).symm.trans
          (existing_of_refusing? analyzer name allowOverride right))
      subst same
      refine ⟨?_, ?_⟩
      · intro equal
        have texts : first.bound.text = second.bound.text := by
          simpa [Fault.boundConflict] using equal
        exact Or.inr ⟨texts, rfl, rfl⟩
      · rintro (rfl | ⟨texts, -, -⟩)
        · rfl
        · simp only [Fault.boundConflict, texts]

/-- Two ways of drawing consequences that fail alike lead to the same answer and the same tables
exactly if the binding shows no difference between what they draw. -/
theorem bindDrawing_eq_iff {draw other : Binding → Except Fault Consequences}
    (failsAlike : ∀ drawn fault, draw drawn = .error fault ↔ other drawn = .error fault) :
    analyzer.bindDrawing name binding allowOverride draw =
      analyzer.bindDrawing name binding allowOverride other ↔
      ∀ drawn, analyzer.drawn? name binding allowOverride = some drawn →
        ∀ first second, draw drawn = .ok first → other drawn = .ok second →
          analyzer.Indistinct name allowOverride first second := by
  unfold bindDrawing
  cases analyzer.drawn? name binding allowOverride with
  | none => simp
  | some drawn =>
    simp only [Option.some.injEq, forall_eq']
    have alike := failsAlike drawn
    cases left : draw drawn with
    | error fault =>
      have right : other drawn = .error fault := (alike fault).mp left
      simp [right]
    | ok first =>
      cases right : other drawn with
      | error fault => exact absurd (left.symm.trans ((alike fault).mpr right)) (by simp)
      | ok second =>
        refine (store_eq_iff analyzer name binding allowOverride).trans ⟨?_, ?_⟩
        · intro indistinct _ _ leftDrawn rightDrawn
          cases leftDrawn
          cases rightDrawn
          exact indistinct
        · intro indistinct
          exact indistinct first second rfl rfl

end Analyzer

end IndexAlgebra
