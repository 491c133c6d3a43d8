/-
This file reads the numbers of JSON text. A number of digits alone that fits into 64 bits, signed
or not, is an exact integer. Every other number is floating-point, and it is found by rounding
several times: its leading digits, as many as fit into 64 bits, are rounded as one integer, and
the result is scaled by a rounded power of ten. That is often, but not always, the number
nearest to the one that is written.
-/
import IndexAlgebra.Binary64.Decimal
import IndexAlgebra.Tree

namespace IndexAlgebra

namespace Binary64

/-! ### Scaling -/

/-- The number nearest to a power of ten. -/
def tenTo (power : Nat) : Binary64 := ofDecimal false ⟨1, power⟩

/-- A finite number times a power of ten, if the result is finite. A negative power divides. The
powers of ten end at `308`, so that a smaller one than its opposite takes several divisions. -/
def scaleByTen? (number : Binary64) (power : Int) : Option Binary64 :=
  if number.isZero then some number
  else if 308 < power then none
  else if 0 ≤ power then some (mul number (tenTo power.toNat)) |>.filter isFinite
  else if -308 ≤ power then some (div number (tenTo (-power).toNat))
  else scaleByTen? (div number (tenTo 308)) (power + 308)
termination_by (-power).toNat

end Binary64

namespace Tree

/-! ### Digits -/

/-- A number as it is written, without its sign. -/
structure Numeral where
  /-- The digits before the point. -/
  whole : List Char
  /-- The digits after the point, none if there is no point. -/
  fraction : List Char
  /-- The power of ten after the mark `e`, if there is a mark. -/
  power? : Option Int
  deriving DecidableEq, Repr

/-- A run of digits, at least one, and what follows it. -/
def spanDigits? (chars : List Char) : Option (List Char × List Char) :=
  let digits := chars.takeWhile Char.isDigit
  if digits.isEmpty then none else some (digits, chars.dropWhile Char.isDigit)

/-- The fraction that may follow the digits of a number, and what follows it. -/
def spanFraction? : List Char → Option (List Char × List Char)
  | '.' :: rest => spanDigits? rest
  | chars => some ([], chars)

/-- The power of ten that may end a number, and what follows it. -/
def spanPower? : List Char → Option (Option Int × List Char)
  | [] => some (none, [])
  | mark :: rest =>
    let power (negative : Bool) (rest : List Char) :=
      (spanDigits? rest).map fun (digits, rest) =>
        let magnitude : Int := Binary64.readDigits digits
        (some (if negative then -magnitude else magnitude), rest)
    if mark == 'e' || mark == 'E' then
      match rest with
      | '-' :: rest => power true rest
      | '+' :: rest => power false rest
      | rest => power false rest
    else some (none, mark :: rest)

/-- A number without its sign and what follows it. A leading zero stands alone. -/
def spanNumeral? (chars : List Char) : Option (Numeral × List Char) := do
  let (whole, rest) ← spanDigits? chars
  if whole.head? == some '0' && whole.length ≠ 1 then none
  else
    let (fraction, rest) ← spanFraction? rest
    let (power?, rest) ← spanPower? rest
    return (⟨whole, fraction, power?⟩, rest)

/-! ### Values -/

/-- An integer with digits put behind it until one more would need more than 64 bits, and the
digits that are left. -/
def appendDigits (number : Nat) : List Char → Nat × List Char
  | [] => (number, [])
  | digit :: rest =>
    let longer := number * 10 + (digit.toNat - '0'.toNat)
    if longer < Word.size then appendDigits longer rest else (number, digit :: rest)

namespace Numeral

/-- The number consists of digits alone. -/
def isWhole (numeral : Numeral) : Bool := numeral.fraction.isEmpty && numeral.power?.isNone

/-- The leading digits that fit into 64 bits, as an integer and the power of ten that it is to
be multiplied by. -/
def leading (numeral : Numeral) : Binary64.Decimal :=
  let (start, unreadWhole) := appendDigits 0 numeral.whole
  let (digits, unread) := appendDigits start numeral.fraction
  let read : Int := numeral.fraction.length - unread.length
  ⟨digits, numeral.power?.getD 0 + unreadWhole.length - read⟩

/-- The floating-point number that is read, if the number is not too large for one. -/
def toBinary64? (negative : Bool) (numeral : Numeral) : Option Binary64 := do
  let leading := numeral.leading
  let magnitude ← (Binary64.ofInt leading.digits).scaleByTen? leading.power
  return if negative then magnitude.neg else magnitude

/-- The tree that a number with the given sign is read as. The negative zero is not an
integer. -/
def toTree? (negative : Bool) (numeral : Numeral) : Option Tree :=
  let magnitude : Int := Binary64.readDigits numeral.whole
  let value := if negative then -magnitude else magnitude
  if numeral.isWhole && decide (Word.least ≤ value ∧ value < Word.size) &&
      !(negative && value == 0) then
    some (.int value)
  else (numeral.toBinary64? negative).map .float

end Numeral

/-- A number and what follows it. -/
def readNumber? (chars : List Char) : Option (Tree × List Char) := do
  let (negative, chars) : Bool × List Char :=
    match chars with
    | '-' :: rest => (true, rest)
    | chars => (false, chars)
  let (numeral, rest) ← spanNumeral? chars
  return (← numeral.toTree? negative, rest)

end Tree

end IndexAlgebra
