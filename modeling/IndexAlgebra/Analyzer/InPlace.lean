/-
This file changes an analyzer in place. A change is made step by step, each step on the analyzer
that the steps before it have left. A change that is refused ends where it is and takes nothing
back, so that it is the order of checks and writes that decides what a refusal leaves behind.
-/
import IndexAlgebra.Analyzer.Bindings
import IndexAlgebra.Analyzer.Constraints

namespace IndexAlgebra

/-- A change of an analyzer in place, which a fault ends. -/
abbrev Change (α : Type) := EStateM Fault Analyzer α

namespace Change

/-- What a query answers for the analyzer as it is, where a fault of the query ends the change. -/
def ask {α : Type} (query : Analyzer → Except Fault α) : Change α := do
  match query (← get) with
  | .ok answer => return answer
  | .error fault => throw fault

/-- Writes a part of what is known. -/
def write (update : Knowledge → Knowledge) : Change Unit :=
  modify fun analyzer => { analyzer with known := update analyzer.known }

/-! ### Bindings -/

/-- Whether the variable has the binding already. A variable with another binding is refused
without an override. -/
def isBoundTo (name : Variable) (binding : Binding) (allowOverride : Bool) : Change Bool := do
  match (← get).known.bindings.find? name with
  | none => return false
  | some existing =>
    if existing = binding then return true
    else if allowOverride then return false
    else throw (.bindingConflict name existing binding)

/-- Refuses another bound for a variable that has a bound but no binding, without an override. -/
def refuseBound (name : Variable) (bound : Bound) (allowOverride : Bool) : Change Unit := do
  let known := (← get).known
  if !allowOverride && (known.bindings.find? name).isNone then
    match known.bounds.find? name with
    | none => return
    | some existing =>
      if existing ≠ bound then throw (.boundConflict name existing bound)

/-- Forgets what followed from the last binding of a variable, apart from its bound. -/
def forget (name : Variable) : Change Unit := do
  write fun known => { known with values := known.values.erase name }
  write fun known => { known with ranges := known.ranges.erase name }
  write fun known => { known with congruences := known.congruences.erase name }

/-- Stores what follows from the binding of a variable. -/
def record (name : Variable) (derived : Consequences) : Change Unit := do
  write fun known => { known with bounds := known.bounds.insert name derived.bound }
  if let some congruence := derived.congruence then
    write fun known => { known with congruences := known.congruences.insert name congruence }
  if let some value := derived.value then
    write fun known => { known with values := known.values.insert name value }
  if let some range := derived.range then
    write fun known => { known with ranges := known.ranges.insert name range }

/-- Stores a binding as it was given. -/
def recordBinding (name : Variable) (binding : Binding) : Change Unit :=
  write fun known => { known with bindings := known.bindings.insert name binding }

/-- Binds a variable to a value, or to a range that stays one. -/
def bindAsGiven (name : Variable) (binding : Binding) (allowOverride : Bool) : Change Unit := do
  unless ← isBoundTo name binding allowOverride do
    let derived ← ask (·.consequences binding)
    refuseBound name derived.bound allowOverride
    forget name
    record name derived
    recordBinding name binding

/-- Binds a variable. For a range with a single value it is bound to the value first, and the range
is stored in the place of the value then. -/
def bind (name : Variable) (binding : Binding) (allowOverride : Bool) : Change Unit :=
  match binding with
  | .range first extent =>
    if extent.isInt 1 then do
      unless ← isBoundTo name binding allowOverride do
        bindAsGiven name (.value first) allowOverride
        recordBinding name binding
    else bindAsGiven name binding allowOverride
  | .value _ => bindAsGiven name binding allowOverride

/-! ### Bounds -/

/-- Gives a variable a bound. -/
def updateBound (name : Variable) (bound : Bound) (allowOverride : Bool) : Change Unit := do
  if let some existing := (← get).known.bounds.find? name then
    if existing ≠ bound && !allowOverride then throw (.boundConflict name existing bound)
  write fun known => { known with bounds := known.bounds.insert name bound }

/-! ### Scopes -/

/-- Leaves the innermost scope, which has to be the one with the token. -/
def exitScope (token : Nat) : Change Unit := do
  let scopes := (← get).known.scopes
  match scopes.getLast? with
  | none => throw { cause := .inactiveScope token }
  | some innermost =>
    if innermost.token ≠ token then
      if scopes.any fun scope => scope.token == token then
        throw { cause := .scopeOrder token innermost.token }
      throw { cause := .inactiveScope token }
    write fun known => { known with scopes := known.scopes.dropLast }
    write fun known => { known with facts := known.facts.take innermost.height }

end Change

end IndexAlgebra
