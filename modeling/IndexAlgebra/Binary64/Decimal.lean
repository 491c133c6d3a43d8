/-
This file writes floating-point numbers in decimal and reads them back. A number is written
with the fewest digits that read back as the same number, and of those digits the nearest to
it. Writing and reading are exact on integers.
-/
import IndexAlgebra.Binary64

namespace IndexAlgebra.Binary64

/-! ### The shortest digits -/

/-- A positive decimal number: its digits as one integer, times ten to a power. -/
structure Decimal where
  digits : Nat
  power : Int
  deriving DecidableEq, Repr

/-- Which one of two decimal numbers is taken that are equally near. -/
inductive Tie where
  /-- The greater one. -/
  | upward
  /-- The one with an even last digit. -/
  | toEven
  deriving DecidableEq, Repr

/-- The decimal number as a quotient of integers. -/
def Decimal.toQuotient (decimal : Decimal) : Nat × Nat :=
  if 0 ≤ decimal.power then (decimal.digits * Nat.pow 10 decimal.power.toNat, 1)
  else (decimal.digits, Nat.pow 10 (-decimal.power).toNat)

/-- The order of two quotients of integers. -/
def compareQuotients (first second : Nat × Nat) : Ordering :=
  Ord.compare (first.1 * second.2) (second.1 * first.2)

/-- The ends of the interval of numbers that round to a finite number other than zero. The
interval reaches half way to each neighbour, and the lower neighbour of a power of two is
half as far away as the upper one. -/
def roundingInterval (number : Binary64) : (Nat × Nat) × (Nat × Nat) :=
  let quadruple := 4 * number.significand
  let below :=
    if number.magnitude % exponentWeight = 0 && 2 * exponentWeight ≤ number.magnitude then 1 else 2
  (scaleDown (quadruple - below) 1 (2 - number.exponent),
    scaleDown (quadruple + 2) 1 (2 - number.exponent))

/-- The decimal number rounds to the given one. The ends of the interval do exactly when the
last bit is even. -/
def roundsTo (number : Binary64) (decimal : Decimal) : Bool :=
  let value := decimal.toQuotient
  let ends := number.roundingInterval
  let even := number.magnitude % 2 == 0
  let above := compareQuotients ends.1 value
  let below := compareQuotients value ends.2
  (above == .lt || even && above == .eq) && (below == .lt || even && below == .eq)

/-- The power of ten just above a finite number other than zero. -/
def decimalExponent (number : Binary64) : Int :=
  let binary : Int := number.significand.log2 + number.exponent
  let guess := (binary * 30103).fdiv 100000 + 1
  if compareQuotients number.toQuotient (Decimal.toQuotient ⟨1, guess⟩) == .lt then guess
  else guess + 1

/-- The neighbours of a number on the decimal grid with the given power, the lower one first. -/
def neighbours (number : Binary64) (power : Int) : Decimal × Decimal :=
  let value := number.toQuotient
  let unit := Decimal.toQuotient ⟨1, power⟩
  let lower := (value.1 * unit.2) / (value.2 * unit.1)
  (⟨lower, power⟩, ⟨lower + 1, power⟩)

/-- The upper neighbour is nearer to the number than the lower one, or it wins the tie. -/
def takesUpper (ties : Tie) (number : Binary64) (lower upper : Decimal) : Bool :=
  let value := number.toQuotient
  let first := lower.toQuotient
  let second := upper.toQuotient
  let middle := (first.1 * second.2 + second.1 * first.2, 2 * first.2 * second.2)
  match compareQuotients middle value, ties with
  | .lt, _ => true
  | .eq, .upward => true
  | .eq, .toEven => upper.digits % 2 == 0
  | .gt, _ => false

/-- The neighbour on one grid that rounds to the number, and the nearer one of two. -/
def onGrid? (ties : Tie) (number : Binary64) (power : Int) : Option Decimal :=
  let (lower, upper) := number.neighbours power
  match number.roundsTo lower, number.roundsTo upper with
  | true, true => some (if number.takesUpper ties lower upper then upper else lower)
  | true, false => some lower
  | false, true => some upper
  | false, false => none

/-- The decimal number with the fewest digits that rounds to a finite number other than zero.
Seventeen digits always suffice. -/
def shortest (ties : Tie) (number : Binary64) : Decimal :=
  let top := number.decimalExponent
  ((List.range 17).findSome? fun count => number.onGrid? ties (top - (count + 1 : Nat))).getD
    (number.neighbours (top - 17)).1

/-! ### Writing -/

/-- The digits without the zeros that end them. -/
def trimZeros (digits : List Char) : List Char :=
  (digits.reverse.dropWhile (· == '0')).reverse

/-- The digits with the point after the given number of them, and at least one digit on each
side of it. -/
def placePoint (digits : List Char) (point : Int) : List Char :=
  if point ≤ 0 then '0' :: '.' :: (List.replicate (-point).toNat '0' ++ digits)
  else
    let whole := point.toNat
    let fraction := digits.drop whole
    digits.take whole ++ List.replicate (whole - digits.length) '0' ++
      '.' :: (if fraction.isEmpty then ['0'] else fraction)

/-- The digits with a point after the first one, and a power of ten. -/
def scientific (digits : List Char) (point : Int) : List Char :=
  digits.take 1 ++ (if digits.length ≤ 1 then [] else '.' :: digits.drop 1) ++
    'e' :: (toString (point - 1)).toList

/-- The written form of a positive decimal number: with a point from `0.0001` up to below
ten to the sixteenth, and with a power of ten otherwise. -/
def Decimal.text (decimal : Decimal) : List Char :=
  let all := (toString decimal.digits).toList
  let point : Int := all.length + decimal.power
  let digits := trimZeros all
  if -3 ≤ point && point ≤ 16 then placePoint digits point else scientific digits point

/-- The written form of a number, with the given choice between equally near digits. -/
def textBy (ties : Tie) (number : Binary64) : String :=
  if number.isNaN then "NaN"
  else
    let sign := if number.isNegative then "-" else ""
    if number.isInfinite then sign ++ "inf"
    else if number.isZero then sign ++ "0.0"
    else sign ++ String.ofList (number.shortest ties).text

/-- The written form of a number. Of equally near digits the greater ones are written. -/
def text (number : Binary64) : String := number.textBy .upward

instance : ToString Binary64 := ⟨text⟩

/-! ### Reading -/

/-- The number nearest to a decimal one. Powers far beyond the range are not computed. -/
def ofDecimal (negative : Bool) (decimal : Decimal) : Binary64 :=
  let size : Int := (toString decimal.digits).length
  if decimal.digits = 0 || decimal.power + size < -330 then zero negative
  else if 310 < decimal.power + size then infinity negative
  else
    let quotient := decimal.toQuotient
    ofQuotient negative quotient.1 quotient.2

/-- The integer that a run of decimal digits writes, where no digits write zero. -/
def readDigits (digits : List Char) : Nat :=
  digits.foldl (fun number digit => number * 10 + (digit.toNat - '0'.toNat)) 0

/-- The power of ten that ends a written number, after its `e`. -/
def readPower? (rest : List Char) : Option Int :=
  let (negative, digits) : Bool × List Char :=
    match rest with
    | '-' :: digits => (true, digits)
    | '+' :: digits => (false, digits)
    | digits => (false, digits)
  if digits.isEmpty || digits.any (fun digit => !digit.isDigit) then none
  else some (if negative then -(readDigits digits : Int) else readDigits digits)

/-- The decimal number that a text without a sign writes: digits with at most one point among
or beside them, and a power of ten. -/
def readDecimal? (chars : List Char) : Option Decimal :=
  let whole := chars.takeWhile Char.isDigit
  let rest := chars.dropWhile Char.isDigit
  let (fraction, rest) :=
    match rest with
    | '.' :: more => (more.takeWhile Char.isDigit, more.dropWhile Char.isDigit)
    | _ => ([], rest)
  if whole.isEmpty && fraction.isEmpty then none
  else
    let power? :=
      match rest with
      | [] => some 0
      | mark :: more => if mark == 'e' || mark == 'E' then readPower? more else none
    power?.map fun power => ⟨readDigits (whole ++ fraction), power - fraction.length⟩

/-- The number that a text writes: an optional sign, and then a decimal number or a name of an
infinity or of what is not a number, in letters of either case. -/
def ofText? (text : String) : Option Binary64 :=
  let (negative, chars) : Bool × List Char :=
    match text.toList with
    | '-' :: rest => (true, rest)
    | '+' :: rest => (false, rest)
    | rest => (false, rest)
  let word := String.ofList (chars.map Char.toLower)
  if word == "inf" || word == "infinity" then some (infinity negative)
  else if word == "nan" then some (if negative then nan.neg else nan)
  else (readDecimal? chars).map (ofDecimal negative)

end IndexAlgebra.Binary64
