/-
This file holds what is known about the variables and expressions of a program: the bindings
and bounds of variables, facts that hold everywhere, and facts that hold in the constraint
scopes that are active. Everything that is known about one expression holds together, so that
a query intersects what each layer knows.
-/
import IndexAlgebra.Bound
import IndexAlgebra.Congruence
import IndexAlgebra.Expr.Renaming
import IndexAlgebra.Interval

namespace IndexAlgebra

/-! ### Tables -/

/-- A value for some of the variables. The first entry of a variable counts. -/
abbrev Table (α : Type) := List (Variable × α)

namespace Table

variable {α : Type}

/-- The value of a variable. -/
def find? (table : Table α) (name : Variable) : Option α :=
  (List.find? (fun entry => entry.1 = name) table).map Prod.snd

/-- The table without a variable. -/
def erase (table : Table α) (name : Variable) : Table α :=
  table.filter fun entry => entry.1 ≠ name

/-- The table with a variable given a value. -/
def insert (table : Table α) (name : Variable) (value : α) : Table α :=
  (name, value) :: table.erase name

/-- The table with a variable given a value, or without it if there is none. -/
def assign (table : Table α) (name : Variable) : Option α → Table α
  | some value => table.insert name value
  | none => table.erase name

/-- The variables that have a value. -/
def keys (table : Table α) : List Variable := table.map Prod.fst

@[simp]
theorem find?_nil (name : Variable) : find? ([] : Table α) name = none := rfl

theorem find?_erase (table : Table α) (name other : Variable) :
    (table.erase name).find? other = if other = name then none else table.find? other := by
  unfold find? erase
  rw [List.find?_filter]
  split
  next same =>
    rw [List.find?_eq_none.mpr (by simp [same]), Option.map_none]
  next different =>
    congr 2
    funext entry
    by_cases same : entry.1 = other <;> simp_all

theorem find?_insert (table : Table α) (name other : Variable) (value : α) :
    (table.insert name value).find? other =
      if other = name then some value else table.find? other := by
  by_cases same : other = name
  · subst same
    simp [insert, find?]
  · have head : (table.insert name value).find? other = (table.erase name).find? other := by
      unfold insert find?
      rw [List.find?_cons_of_neg (by simpa using Ne.symm same)]
    rw [head, find?_erase, if_neg same, if_neg same]

end Table

/-! ### Bindings, facts and scopes -/

/-- What a variable stands for. -/
inductive Binding where
  /-- The variable equals the expression. -/
  | value (expr : Expr)
  /-- The variable takes the values from `first` up to, but not including, `first + extent`. -/
  | range (first extent : Expr)
  deriving DecidableEq

namespace Binding

/-- The expressions of a binding. -/
def exprs : Binding → List Expr
  | value expr => [expr]
  | range first extent => [first, extent]

def text : Binding → String
  | value expr => expr.text
  | range first extent => "range(" ++ first.text ++ ", " ++ extent.text ++ ")"

end Binding

/-- Something that holds while a constraint scope is active. -/
inductive Fact where
  /-- The values of the expression are in the bound. -/
  | bound (target : Expr) (bound : Bound)
  /-- The values of the expression are in the class. -/
  | congruence (target : Expr) (congruence : Congruence)
  /-- The condition is true. -/
  | truth (cond : Expr)
  deriving DecidableEq

/-- The expression that a fact is about. -/
def Fact.target : Fact → Expr
  | bound target _ | congruence target _ | truth target => target

/-- An active constraint scope. -/
structure Scope where
  /-- The number that the scope is left by. -/
  token : Nat
  /-- The number of facts when the scope was entered. -/
  height : Nat
  deriving DecidableEq, Repr

/-! ### Knowledge -/

/-- Everything that is known. -/
structure Knowledge where
  /-- What each bound variable was bound to, as it was given. -/
  bindings : Table Binding := []
  bounds : Table Bound := []
  congruences : Table Congruence := []
  /-- The simplified value of each variable bound to a value. -/
  values : Table Expr := []
  /-- The simplified range of each variable bound to a range. -/
  ranges : Table Interval := []
  /-- Bounds of expressions that hold in every scope. -/
  globals : List (Expr × Bound) := []
  /-- The facts of the active scopes, the outermost first. -/
  facts : List Fact := []
  /-- The active scopes, the outermost first. -/
  scopes : List Scope := []
  deriving Inhabited

namespace Knowledge

/-- What remains of several pieces of information that hold together, if there is any. -/
def meet? {α : Type} (intersect : α → α → α) : List α → Option α
  | [] => none
  | first :: rest => some (rest.foldl intersect first)

/-- The entry of a table for an expression that is a variable. -/
def entries {α : Type} (table : Table α) (expr : Expr) : List α :=
  (expr.asVariable?.bind table.find?).toList

/-- Everything that is known about the bound of an expression, if anything is. -/
def boundOf? (known : Knowledge) (expr : Expr) : Option Bound :=
  meet? Bound.intersect
    (entries known.bounds expr ++
      (known.globals.filterMap fun (target, bound) => if target = expr then some bound else none) ++
      known.facts.filterMap fun
        | .bound target bound => if target = expr then some bound else none
        | _ => none)

/-- Everything that is known about the congruence class of an expression, if anything is. -/
def congruenceOf? (known : Knowledge) (expr : Expr) : Option Congruence :=
  meet? Congruence.intersect
    (entries known.congruences expr ++
      known.facts.filterMap fun
        | .congruence target congruence => if target = expr then some congruence else none
        | _ => none)

/-- The conditions known to be true, the innermost last. -/
def truths (known : Knowledge) : List Expr :=
  known.facts.filterMap fun
    | .truth cond => some cond
    | _ => none

/-! ### Names -/

/-- The names of the variables that something is known about, and of those that occur in
bindings and facts. -/
def names (known : Knowledge) : List String :=
  let subjects := known.bindings.keys ++ known.bounds.keys ++ known.congruences.keys ++
    known.ranges.keys
  let exprs := (known.bindings.flatMap fun (_, binding) => binding.exprs) ++
    known.globals.map Prod.fst ++ known.facts.map Fact.target
  (subjects ++ exprs.flatMap Expr.freeVariables).map Variable.name

/-- The expression with its bound variables renamed apart from each other and from every
variable that something is known about, so that nothing that is known of a variable is used
inside a binding that hides it. -/
def isolate (known : Knowledge) (expr : Expr) : Expr :=
  if expr.hasLet then expr.renameLets known.names else expr

/-! ### Scopes -/

/-- The number of active scopes. -/
def depth (known : Knowledge) : Nat := known.scopes.length

/-- Enters a scope in which the facts hold. -/
def enterScope (known : Knowledge) (token : Nat) (facts : List Fact) : Knowledge :=
  { known with
    facts := known.facts ++ facts
    scopes := known.scopes ++ [⟨token, known.facts.length⟩] }

/-- Leaves a scope, which has to be active, together with the scopes inside it. What was known
before the scope was entered is known again. -/
def leaveScope (known : Knowledge) (token : Nat) : Knowledge :=
  match known.scopes.dropWhile (fun scope => scope.token ≠ token) with
  | [] => known
  | scope :: _ =>
    { known with
      facts := known.facts.take scope.height
      scopes := known.scopes.takeWhile fun scope => scope.token ≠ token }

end Knowledge

end IndexAlgebra
