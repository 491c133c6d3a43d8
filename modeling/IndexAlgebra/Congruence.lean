/-
This file holds congruence classes: the integers that leave one remainder by a modulus. The
modulus zero stands for a single integer, and the modulus one for every integer. Where a
modulus or a remainder would leave the range of words, a class with less information is given.
-/
import IndexAlgebra.Word

namespace IndexAlgebra

/-- The integers `modulus * k + base`. -/
structure Congruence where
  modulus : Int
  base : Int
  deriving DecidableEq, Repr, Inhabited

namespace Congruence

/-! ### Classes -/

/-- Every integer. -/
def everything : Congruence := ⟨1, 0⟩

/-- A single integer. -/
def constant (value : Int) : Congruence := ⟨0, value⟩

/-- The class of a modulus of either sign and any base. The base is brought between zero and
the modulus, and a modulus whose opposite is no word gives every integer. -/
def ofInts (modulus base : Int) : Congruence :=
  if modulus = Word.least then everything
  else if modulus = 0 then constant base
  else ⟨modulus.natAbs, base.emod modulus⟩

/-- The class holds a single integer. -/
def isConstant (congruence : Congruence) : Bool := congruence.modulus == 0

/-- The class carries no information. -/
def isEverything (congruence : Congruence) : Bool := congruence.modulus == 1

def contains (congruence : Congruence) (value : Int) : Bool :=
  if congruence.modulus = 0 then value == congruence.base
  else (value - congruence.base).emod congruence.modulus == 0

theorem contains_iff {congruence : Congruence} {value : Int} :
    congruence.contains value = true ↔ congruence.modulus ∣ value - congruence.base := by
  unfold contains
  split
  next single => simp [single, Int.sub_eq_zero]
  next => exact beq_iff_eq.trans Int.dvd_iff_emod_eq_zero.symm

@[simp]
theorem contains_everything (value : Int) : everything.contains value = true :=
  contains_iff.mpr (Int.one_dvd _)

theorem contains_constant {value other : Int} :
    (constant value).contains other = true ↔ other = value := by
  simp [contains, constant]

theorem contains_ofInts {modulus base value : Int} (member : modulus ∣ value - base) :
    (ofInts modulus base).contains value = true := by
  unfold ofInts
  split
  next => exact contains_everything value
  next =>
    split
    next zero =>
      rw [contains_constant]
      rw [zero, Int.zero_dvd] at member
      omega
    next =>
      rw [contains_iff]
      simp only [Int.natAbs_dvd]
      have reduced : modulus ∣ base - base.emod modulus := Int.dvd_self_sub_emod
      have split : value - base.emod modulus = (value - base) + (base - base.emod modulus) := by
        omega
      rw [split]
      exact Int.dvd_add member reduced

/-! ### Arithmetic -/

/-- The sum of two classes whose bases overflow: the bases are reduced first. -/
def addReduced (left right : Congruence) : Congruence :=
  let modulus := Word.gcd left.modulus right.modulus
  if modulus = 0 then everything
  else
    let sum := Word.wrap (left.base.emod modulus + right.base.emod modulus)
    ofInts modulus (sum.tmod modulus)

def add (left right : Congruence) : Congruence :=
  match Word.add? left.base right.base with
  | some base => ofInts (Word.gcd left.modulus right.modulus) base
  | none => addReduced left right

def sub (left right : Congruence) : Congruence :=
  match Word.sub? left.base right.base with
  | some base => ofInts (Word.gcd left.modulus right.modulus) base
  | none => addReduced left right

/-- The product. Expanding `(m k + a) (n l + b)` shows that it differs from `a b` by a multiple
of the greatest common divisor of `m n`, `m b` and `n a`. -/
def mul (left right : Congruence) : Congruence :=
  match Word.mul? left.modulus right.modulus, Word.mul? left.modulus right.base,
      Word.mul? right.modulus left.base, Word.mul? left.base right.base with
  | some both, some first, some second, some base =>
    ofInts (Word.gcd both (Word.gcd first second)) base
  | _, _, _, _ => everything

/-- The quotient by a constant, rounded down or toward zero. Rounding toward zero rounds down a
dividend that is known not to be negative. Without information when the divisor is zero or
does not divide the modulus. -/
def divConst (congruence : Congruence) (divisor : Int) (floor nonNegative : Bool) : Congruence :=
  if divisor = 0 ∨ congruence.modulus.tmod divisor ≠ 0 then everything
  else if congruence.modulus = 0 then
    match Word.tdiv? congruence.base divisor with
    | some quotient => constant (if floor then congruence.base.fdiv divisor else quotient)
    | none => everything
  else if congruence.base = 0 then ofInts (congruence.modulus.tdiv divisor) 0
  else if 0 < congruence.base ∧ 0 < divisor ∧ (floor || nonNegative) then
    ofInts (congruence.modulus.tdiv divisor) (congruence.base.tdiv divisor)
  else everything

/-- The remainder by a constant, with the sign of the divisor or of the dividend. Either
remainder differs from the dividend by a multiple of the divisor. -/
def modConst (congruence : Congruence) (divisor : Int) (floor : Bool) : Congruence :=
  if divisor = 0 then everything
  else if congruence.modulus = 0 then
    if congruence.base = Word.least ∧ divisor = -1 then everything
    else
      constant (if floor then congruence.base.fmod divisor else congruence.base.tmod divisor)
  else ofInts (Word.gcd congruence.modulus divisor) congruence.base

/-! ### Lattice -/

/-- The smallest class around both. -/
def union (left right : Congruence) : Congruence :=
  let distance : Int := (left.base - right.base).natAbs
  let distance := if Word.Fits distance then distance else 1
  ofInts (Word.gcd (Word.gcd left.modulus right.modulus) distance) left.base

/-- The greatest common divisor of two integers with the factors that combine them to it. The
second integer shrinks in every step, so that its magnitude is fuel enough. -/
def bezout : Nat → Int → Int → Int × Int × Int
  | 0, left, _ => (left, 1, 0)
  | fuel + 1, left, right =>
    if right = 0 then (left, 1, 0)
    else
      let (divisor, first, second) := bezout fuel right (left.tmod right)
      (divisor, second, first - left.tdiv right * second)

/-- The integers in both classes. Classes without a common integer, and classes whose common
modulus is no word, give the more precise one of the two. -/
def intersect (left right : Congruence) : Congruence :=
  if left.modulus = 0 then left
  else if right.modulus = 0 then right
  else
    let precise := if right.modulus ≤ left.modulus then left else right
    let (divisor, factor, _) := bezout right.modulus.natAbs left.modulus right.modulus
    let distance := right.base - left.base
    let common := left.modulus.tdiv divisor * right.modulus
    if distance.tmod divisor ≠ 0 ∨ ¬Word.Fits common then precise
    else
      let steps := (distance.tdiv divisor * factor).emod (right.modulus.tdiv divisor)
      ofInts common ((left.base + left.modulus * steps).emod common)

def text (congruence : Congruence) : String :=
  "\x7bcoeff: " ++ toString congruence.modulus ++ ", base: " ++ toString congruence.base ++ "\x7d"

instance : ToString Congruence := ⟨text⟩

end Congruence

end IndexAlgebra
