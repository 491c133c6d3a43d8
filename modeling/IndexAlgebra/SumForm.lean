/-
This file holds sums of products: a constant, and terms that are products of atoms with a
coefficient. The terms are kept in order and none has the coefficient zero, so that like terms
meet however far apart they stand in an expression. The arithmetic is that of words: an operation
that leaves their range has no result.
-/
import IndexAlgebra.Expr.Build
import IndexAlgebra.Expr.Order

namespace IndexAlgebra

/-! ### Atoms -/

/-- The quotient or the remainder of a division that rounds one way or the other. -/
inductive Split where
  | truncDiv
  | truncMod
  | floorDiv
  | floorMod
  deriving DecidableEq, Repr

/-- A factor that is not taken apart. -/
inductive Atom where
  /-- An expression. -/
  | leaf (expr : Expr)
  /-- The quotient or the remainder of an expression by a constant. -/
  | split (dividend : Expr) (divisor : Int) (kind : Split)
  deriving DecidableEq

namespace Split

/-- Every split, in the order of atoms. -/
def all : List Split := [truncDiv, truncMod, floorDiv, floorMod]

def rank : Split → Nat
  | truncDiv => 0
  | truncMod => 1
  | floorDiv => 2
  | floorMod => 3

def op : Split → BinaryOp
  | truncDiv => .truncDiv
  | truncMod => .truncMod
  | floorDiv => .floorDiv
  | floorMod => .floorMod

/-- The split that an operator stands for. -/
def ofOp? (op : BinaryOp) : Option Split := all.find? fun split => split.op == op

def isQuotient : Split → Bool
  | truncDiv | floorDiv => true
  | truncMod | floorMod => false

/-- The quotient is rounded down. -/
def isFloored : Split → Bool
  | floorDiv | floorMod => true
  | truncDiv | truncMod => false

/-- The remainder that belongs to a quotient. -/
def remainder? : Split → Option Split
  | truncDiv => some truncMod
  | floorDiv => some floorMod
  | truncMod | floorMod => none

/-- The quotient or remainder of two integers. -/
def apply : Split → Int → Int → Int
  | truncDiv => Int.tdiv
  | truncMod => Int.tmod
  | floorDiv => Int.fdiv
  | floorMod => Int.fmod

end Split

namespace Atom

/-- Expressions come before divisions, which are ordered by dividend, divisor and kind. -/
def compare : Atom → Atom → Ordering
  | leaf expr, leaf expr' => Expr.compare expr expr'
  | leaf _, split .. => .lt
  | split .., leaf _ => .gt
  | split dividend divisor kind, split dividend' divisor' kind' =>
    (Expr.compare dividend dividend').then
      ((Ord.compare divisor divisor').then (Ord.compare kind.rank kind'.rank))

/-- The atom as an expression. -/
def expr? : Atom → Option Expr
  | leaf expr => some expr
  | split dividend divisor kind =>
    Expr.binary? kind.op dividend (.ofInt dividend.dtype divisor)

end Atom

/-- A product of atoms, in order. -/
abbrev Product := List Atom

namespace Product

/-- Products are ordered atom by atom, the shorter one first. -/
def compare : Product → Product → Ordering
  | [], [] => .eq
  | [], _ :: _ => .lt
  | _ :: _, [] => .gt
  | first :: rest, first' :: rest' => (Atom.compare first first').then (compare rest rest')

/-- The product of two products. -/
def mul (left right : Product) : Product :=
  (left ++ right).mergeSort fun first second => Atom.compare first second != .gt

/-- The product as an expression, from left to right. The empty product has none. -/
def expr? : Product → Option Expr
  | [] => none
  | first :: rest => do
    rest.foldlM (fun product atom => do Expr.binary? .mul product (← atom.expr?)) (← first.expr?)

end Product

/-! ### Sums -/

/-- A sum of terms and a constant. -/
structure SumForm where
  dtype : DataType
  /-- Products with their coefficients, in the order of products. -/
  terms : List (Product × Int)
  constant : Int
  deriving DecidableEq

namespace SumForm

/-- The sum without terms. -/
def ofInt (dtype : DataType) (value : Int) : SumForm := ⟨dtype, [], value⟩

/-- The sum of a single atom. -/
def ofAtom (dtype : DataType) (atom : Atom) : SumForm := ⟨dtype, [([atom], 1)], 0⟩

/-- The sum of an expression that is not taken apart. -/
def ofLeaf (expr : Expr) : SumForm := ofAtom expr.dtype (.leaf expr)

/-- The constant of a sum without terms. -/
def asConst? (sum : SumForm) : Option Int :=
  if sum.terms.isEmpty then some sum.constant else none

/-- The coefficient of a product among the terms. -/
def coefficient? (sum : SumForm) (product : Product) : Option Int := sum.terms.lookup product

/-- The greatest common divisor of the coefficients, and zero without terms. -/
def content (sum : SumForm) : Int :=
  sum.terms.foldl (fun divisor (_, coefficient) => Word.gcd divisor coefficient) 0

/-! ### Addition -/

/-- The terms with a multiple of a product added in its place. A term that cancels is left out. -/
def insertTerm? (product : Product) (coefficient : Int) :
    List (Product × Int) → Option (List (Product × Int))
  | [] => some [(product, coefficient)]
  | (first, value) :: rest =>
    match Product.compare product first with
    | .lt => some ((product, coefficient) :: (first, value) :: rest)
    | .eq => (Word.add? value coefficient).map fun total =>
      if total = 0 then rest else (first, total) :: rest
    | .gt => (insertTerm? product coefficient rest).map ((first, value) :: ·)

/-- The sum with a multiple of a product added. -/
def addTerm? (sum : SumForm) (product : Product) (coefficient : Int) : Option SumForm :=
  if coefficient = 0 then some sum
  else (insertTerm? product coefficient sum.terms).map fun terms => { sum with terms }

/-- The sum of two sums. -/
def add? (left right : SumForm) : Option SumForm := do
  let sum ← right.terms.foldlM (fun sum (product, coefficient) => sum.addTerm? product coefficient)
    left
  return { sum with constant := ← Word.add? sum.constant right.constant }

/-- A multiple of a sum. -/
def scale? (sum : SumForm) (factor : Int) : Option SumForm :=
  if factor = 0 then some (ofInt sum.dtype 0)
  else do
    let terms ← sum.terms.mapM fun (product, coefficient) =>
      (Word.mul? coefficient factor).map (product, ·)
    return { sum with terms, constant := ← Word.mul? sum.constant factor }

/-- The difference of two sums. -/
def sub? (left right : SumForm) : Option SumForm := do left.add? (← right.scale? (-1))

/-! ### Multiplication -/

/-- The sum with the product of each term and a factor added. -/
def addScaled? (sum : SumForm) (terms : List (Product × Int)) (factor : Int) : Option SumForm :=
  terms.foldlM (fun sum (product, coefficient) => do
    sum.addTerm? product (← Word.mul? coefficient factor)) sum

/-- The sum with the product of each term and a term added. -/
def addProducts? (sum : SumForm) (terms : List (Product × Int)) (term : Product × Int) :
    Option SumForm :=
  terms.foldlM (fun sum (product, coefficient) => do
    sum.addTerm? (term.1.mul product) (← Word.mul? term.2 coefficient)) sum

/-- The product of two sums, unless it would have more than the given number of terms, counting
the constants and each pair of terms. A product with a constant is never too large. -/
def mul? (left right : SumForm) (maxTerms : Nat) : Option SumForm :=
  match right.asConst?, left.asConst? with
  | some factor, _ => left.scale? factor
  | none, some factor => right.scale? factor
  | none, none =>
    if maxTerms < (left.terms.length + 1) * (right.terms.length + 1) then none
    else do
      let constant := ofInt left.dtype (← Word.mul? left.constant right.constant)
      let sum ← constant.addScaled? left.terms right.constant
      let sum ← sum.addScaled? right.terms left.constant
      left.terms.foldlM (fun sum term => sum.addProducts? right.terms term) sum

/-! ### Division -/

/-- The quotient by a divisor of every coefficient and of the constant. -/
def divideExact? (sum : SumForm) (divisor : Int) : Option SumForm :=
  if Word.isMultiple sum.constant divisor && Word.isMultiple sum.content divisor then do
    let terms ← sum.terms.mapM fun (product, coefficient) =>
      (Word.tdiv? coefficient divisor).map (product, ·)
    return { sum with terms, constant := ← Word.tdiv? sum.constant divisor }
  else none

/-- The terms whose coefficients are multiples of a divisor, and the other terms with the
constant. -/
def partition (sum : SumForm) (divisor : Int) : SumForm × SumForm :=
  let (multiples, rest) := sum.terms.partition fun term => Word.isMultiple term.2 divisor
  (⟨sum.dtype, multiples, 0⟩, ⟨sum.dtype, rest, sum.constant⟩)

/-! ### Sums as expressions -/

/-- The constant as an expression, if its type can hold it. -/
def constantExpr? (dtype : DataType) (value : Int) : Option Expr :=
  if dtype.fits value then some (.ofInt dtype value) else none

/-- A multiple of a product as an expression. -/
def termExpr? (dtype : DataType) (product : Product) (coefficient : Int) : Option Expr := do
  let expr ← product.expr?
  if coefficient = 1 then return expr
  else Expr.binary? .mul expr (← constantExpr? dtype coefficient)

/-- The sum as an expression: the terms with a positive coefficient, then those with a negative
one, which are subtracted, and the constant at the end. Where no coefficient is positive the
expression begins with the constant. -/
def expr? (sum : SumForm) : Option Expr := do
  let positive := sum.terms.filter fun term => 0 < term.2
  let negative := sum.terms.filter fun term => term.2 < 0
  let subtractAll (expr : Expr) : Option Expr :=
    negative.foldlM (fun expr (product, coefficient) => do
      Expr.binary? .sub expr (← termExpr? sum.dtype product (← Word.neg? coefficient))) expr
  match positive with
  | [] => subtractAll (← constantExpr? sum.dtype sum.constant)
  | (product, coefficient) :: rest =>
    let added ← rest.foldlM (fun expr (product, coefficient) => do
      Expr.binary? .add expr (← termExpr? sum.dtype product coefficient))
      (← termExpr? sum.dtype product coefficient)
    let terms ← subtractAll added
    if sum.constant = 0 then return terms
    else if 0 < sum.constant then Expr.binary? .add terms (← constantExpr? sum.dtype sum.constant)
    else Expr.binary? .sub terms (← constantExpr? sum.dtype (← Word.neg? sum.constant))

end SumForm

end IndexAlgebra
