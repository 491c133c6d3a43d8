/-
This file tells the analyzer about variables: what they are bound to, their bounds, and which
expressions are never negative. A variable keeps what it was told first, unless an override is
asked for; an error leaves everything as it was.
-/
import IndexAlgebra.Reduction.Simplifier

namespace IndexAlgebra

/-! ### Errors -/

/-- The error of a variable that is bound already, which points at the variable, the sign after
it and the new binding. -/
def Fault.bindingConflict (name : Variable) (existing new : Binding) : Fault :=
  let source := name.name ++ " = " ++ new.text
  let size := name.name.utf8ByteSize
  ⟨.bindingConflict name.name existing.text new.text, source,
    [(0, size), (size + 1, size + 2), (size + 3, source.utf8ByteSize)]⟩

/-- The error of a variable that has another bound already. -/
def Fault.boundConflict (name : Variable) (existing new : Bound) : Fault :=
  ⟨.boundConflict name.name existing.text new.text, name.name, [(0, name.name.utf8ByteSize)]⟩

/-- What follows from a binding for its variable. -/
structure Consequences where
  bound : Bound
  congruence : Option Congruence
  value : Option Expr
  range : Option Interval

namespace Analyzer

/-! ### Bindings -/

/-- The last value of a range. -/
def lastOfRange (first extent : Expr) : Except Fault Expr := do
  Expr.mkBinary .sub (← Expr.mkBinary .add first extent) (.ofIndex 1)

/-- What follows from a binding. A variable that equals an expression has its bound and its
class. A variable with a range lies between the ends of the range. -/
def consequences (analyzer : Analyzer) : Binding → Except Fault Consequences
  | .value expr =>
    let value := analyzer.reduce expr
    return ⟨analyzer.known.inferBound value, some (analyzer.known.inferCongruence value),
      some value, none⟩
  | .range first extent => do
    let last := analyzer.reduce (← lastOfRange first extent)
    return ⟨⟨(analyzer.known.inferBound first).lower, (analyzer.known.inferBound last).upper⟩,
      none, none, some (.between (analyzer.reduce first) last)⟩

/-- The analyzer with a binding stored as it was given. -/
def withBinding (analyzer : Analyzer) (name : Variable) (binding : Binding) : Analyzer :=
  { analyzer with
    known := { analyzer.known with bindings := analyzer.known.bindings.insert name binding } }

/-- Binds a variable and stores what follows from the binding. A variable that has no binding
but another bound is not bound without an override. -/
def assign (analyzer : Analyzer) (name : Variable) (binding : Binding) (allowOverride : Bool) :
    Except Fault Analyzer := do
  let derived ← analyzer.consequences binding
  let known := analyzer.known
  match known.bounds.find? name with
  | some existing =>
    if !allowOverride && (known.bindings.find? name).isNone && existing != derived.bound then
      throw (.boundConflict name existing derived.bound)
  | none => pure ()
  let known :=
    { known with
      bounds := known.bounds.insert name derived.bound
      congruences := known.congruences.assign name derived.congruence
      values := known.values.assign name derived.value
      ranges := known.ranges.assign name derived.range }
  return { analyzer with known }.withBinding name binding

/-- Binds a variable to a value or a range. The same binding again changes nothing, and another
one is refused without an override. A range with a single value binds the variable to the value,
but it is stored as the range. -/
def bind (analyzer : Analyzer) (name : Variable) (binding : Binding) (allowOverride : Bool) :
    Except Fault Analyzer := do
  let existing? := analyzer.known.bindings.find? name
  match existing? with
  | some existing =>
    if existing = binding then return analyzer
    if !allowOverride then throw (.bindingConflict name existing binding)
  | none => pure ()
  match binding with
  | .range first extent =>
    if extent.isInt 1 then
      let single := Binding.value first
      let bound ←
        if existing? = some single then pure analyzer
        else analyzer.assign name single allowOverride
      return bound.withBinding name binding
    else analyzer.assign name binding allowOverride
  | .value _ => analyzer.assign name binding allowOverride

/-! ### Bounds -/

/-- Gives a variable a bound. Another bound than it has is refused without an override. -/
def updateBound (analyzer : Analyzer) (name : Variable) (bound : Bound) (allowOverride : Bool) :
    Except Fault Analyzer := do
  match analyzer.known.bounds.find? name with
  | some existing =>
    if existing ≠ bound && !allowOverride then throw (.boundConflict name existing bound)
  | none => pure ()
  return { analyzer with
    known := { analyzer.known with bounds := analyzer.known.bounds.insert name bound } }

/-- Notes that an integer expression is never negative. This outlives every scope. Constants
say so themselves. -/
def markNonNegative (analyzer : Analyzer) (expr : Expr) : Analyzer :=
  if expr.isConst || !expr.dtype.isInteger then analyzer
  else
    { analyzer with
      known :=
        { analyzer.known with globals := analyzer.known.globals ++ [(expr, .nonNegative)] } }

end Analyzer

end IndexAlgebra
