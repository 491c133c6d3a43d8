/-
This file says what the tables hold about a variable, and when an entry is true of the variable. A binding
stores its consequences as entries, and a bound replaces the bound that the variable had.
-/
import IndexAlgebra.Proofs.Binding
import IndexAlgebra.Proofs.InferredBound

namespace IndexAlgebra

/-! ### Entries -/

/-- An entry of the tables about a variable. -/
inductive Entry where
  | bound (bound : Bound)
  | congruence (congruence : Congruence)
  | value (value : Expr)
  | range (range : Interval)

namespace Interval

/-- The integer lies between the values of the ends. -/
def Encloses (env : Environment) (range : Interval) (number : Int) : Prop :=
  (∀ lower ∈ range.lower, ∀ least, lower.eval env = some (.int least) → least ≤ number) ∧
    ∀ upper ∈ range.upper, ∀ greatest, upper.eval env = some (.int greatest) → number ≤ greatest

end Interval

/-- The entry is true of a value of its variable. -/
def Entry.Admits (env : Environment) (value : Value) : Entry → Prop
  | .bound interval => ∀ number ∈ value.ints, interval.contains number = true
  | .congruence residues => ∀ number ∈ value.ints, residues.contains number = true
  | .value expr => expr.eval env = some value
  | .range interval => ∀ number, value = .int number → interval.Encloses env number

/-- The entry is true of its variable. -/
def Entry.Holds (env : Environment) (name : Variable) (entry : Entry) : Prop :=
  ∀ value, env name = some value → entry.Admits env value

/-- The tables have the entry for the variable. -/
def Knowledge.Has (known : Knowledge) (name : Variable) : Entry → Prop
  | .bound bound => known.bounds.find? name = some bound
  | .congruence congruence => known.congruences.find? name = some congruence
  | .value value => known.values.find? name = some value
  | .range range => known.ranges.find? name = some range

/-- The entry is one of the consequences. -/
def Consequences.Has (derived : Consequences) : Entry → Prop
  | .bound bound => derived.bound = bound
  | .congruence congruence => derived.congruence = some congruence
  | .value value => derived.value = some value
  | .range range => derived.range = some range

theorem Analyzer.has_withConsequences {analyzer : Analyzer} {name other : Variable}
    {binding : Binding} {derived : Consequences} {entry : Entry} :
    (analyzer.withConsequences name binding derived).known.Has other entry ↔
      if other = name then derived.Has entry else analyzer.known.Has other entry := by
  cases entry <;>
    simp only [Knowledge.Has, Consequences.Has, Analyzer.withConsequences, Analyzer.withBinding,
      Table.find?_insert, Table.find?_assign] <;>
    split <;> simp

/-! ### Storing entries -/

theorem Binding.drawn_drawn (binding : Binding) : binding.drawn.drawn = binding.drawn := by
  cases binding with
  | value expr => rfl
  | range first extent => by_cases single : extent.isInt 1 <;> simp [Binding.drawn, single]

namespace Analyzer

/-- What is drawn and stored comes from the state of before. -/
theorem drawing_eq_ok {analyzer next : Analyzer} {name : Variable} {binding drawn : Binding}
    {allowOverride : Bool}
    (stored : analyzer.consequences drawn >>= analyzer.store name binding allowOverride = .ok next) :
    ∃ derived, analyzer.consequences drawn = .ok derived ∧
      next = analyzer.withConsequences name binding derived := by
  obtain ⟨derived, draws, isNext⟩ := bind_eq_ok_iff.mp stored
  unfold store at isNext
  split at isNext
  · cases isNext
  · exact ⟨derived, draws, (Except.ok.inj isNext).symm⟩

/-- A binding that is accepted stores what follows from it, or leaves every entry. -/
theorem bind_cases {analyzer next : Analyzer} {name : Variable} {binding : Binding}
    {allowOverride : Bool} (bound : analyzer.bind name binding allowOverride = .ok next) :
    (∃ derived, analyzer.drawn? name binding allowOverride = some binding.drawn ∧
      analyzer.consequences binding.drawn = .ok derived ∧
      next = analyzer.withConsequences name binding derived) ∨
    analyzer.drawn? name binding allowOverride = none ∧
      (next = analyzer ∨ analyzer.known.bindings.find? name = some binding.drawn ∧
        next = analyzer.withBinding name binding) := by
  rw [bind_eq_bindDrawing] at bound
  unfold bindDrawing bindUndrawn at bound
  cases found : analyzer.known.bindings.find? name with
  | none =>
    have draws : analyzer.drawn? name binding allowOverride = some binding.drawn := by
      simp [drawn?, found]
    rw [draws] at bound
    obtain ⟨derived, isDerived, isNext⟩ := drawing_eq_ok bound
    exact Or.inl ⟨derived, draws, isDerived, isNext⟩
  | some existing =>
    by_cases same : existing = binding
    · have draws : analyzer.drawn? name binding allowOverride = none := by
        simp [drawn?, found, same]
      rw [draws, found] at bound
      dsimp only at bound
      rw [if_pos same] at bound
      exact Or.inr ⟨draws, Or.inl (Except.ok.inj bound).symm⟩
    cases allowOverride with
    | false => simp [drawn?, found, same] at bound
    | true =>
      by_cases already : existing = binding.drawn
      · have draws : analyzer.drawn? name binding true = none := by
          simp [drawn?, found, already]
        rw [draws, found] at bound
        dsimp only at bound
        rw [if_neg same] at bound
        exact Or.inr ⟨draws, Or.inr ⟨by rw [already], (Except.ok.inj bound).symm⟩⟩
      · have draws : analyzer.drawn? name binding true = some binding.drawn := by
          simp [drawn?, found, same, already]
        rw [draws] at bound
        obtain ⟨derived, isDerived, isNext⟩ := drawing_eq_ok bound
        exact Or.inl ⟨derived, draws, isDerived, isNext⟩

/-- The analyzer with a bound of a variable replaced. -/
def withBound (analyzer : Analyzer) (name : Variable) (bound : Bound) : Analyzer :=
  { analyzer with
    known := { analyzer.known with bounds := analyzer.known.bounds.insert name bound } }

theorem updateBound_eq_ok {analyzer next : Analyzer} {name : Variable} {bound : Bound}
    {allowOverride : Bool} (updated : analyzer.updateBound name bound allowOverride = .ok next) :
    next = analyzer.withBound name bound := by
  unfold updateBound at updated
  repeat' split at updated
  all_goals cases updated
  all_goals rfl

theorem has_withBound {analyzer : Analyzer} {name other : Variable} {bound : Bound}
    {entry : Entry} (has : (analyzer.withBound name bound).known.Has other entry) :
    other = name ∧ entry = .bound bound ∨ analyzer.known.Has other entry := by
  cases entry with
  | bound interval =>
    simp only [Knowledge.Has, withBound, Table.find?_insert] at has
    split at has
    next same => exact Or.inl ⟨same, by rw [Option.some.inj has]⟩
    next => exact Or.inr has
  | congruence residues => exact Or.inr has
  | value expr => exact Or.inr has
  | range interval => exact Or.inr has

end Analyzer

/-! ### Bindings that hold -/

/-- The variable has the value of the binding, or lies in its range. -/
def Binding.Holds (env : Environment) (name : Variable) : Binding → Prop
  | .value expr => ∃ value, env name = some value ∧ expr.eval env = some value
  | .range first extent => ∃ number least length, env name = some (.int number) ∧
    first.eval env = some (.int least) ∧ extent.eval env = some (.int length) ∧
    least ≤ number ∧ number < least + length

theorem Expr.eval_of_isInt {env : Environment} {expr : Expr} {number : Int}
    (constant : expr.isInt number = true) : expr.eval env = some (.int number) := by
  cases expr <;> simp [Expr.isInt, Expr.asInt?] at constant
  subst constant
  rfl

/-- A variable in a range with a single value has that value. -/
theorem Binding.Holds.drawn {env : Environment} {name : Variable} {binding : Binding}
    (holds : binding.Holds env name) : binding.drawn.Holds env name := by
  cases binding with
  | value expr => exact holds
  | range first extent =>
    by_cases single : extent.isInt 1 = true
    · obtain ⟨number, least, length, isNumber, isLeast, isLength, above, below⟩ := holds
      have one : some (Value.int length) = some (.int 1) :=
        isLength.symm.trans (Expr.eval_of_isInt single)
      cases one
      have same : least = number := by omega
      subst same
      rw [Binding.drawn, if_pos single]
      exact ⟨.int least, isNumber, isLeast⟩
    · rw [Binding.drawn, if_neg single]
      exact holds

end IndexAlgebra
