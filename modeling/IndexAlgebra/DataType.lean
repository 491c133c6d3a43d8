/-
This file holds the data types that every expression carries: a kind of number, the bits of
one lane and the count of lanes. It gives the range of integers one lane can hold, the order
and the written form of a type, and the reader of that form.
-/
import IndexAlgebra.Word

namespace IndexAlgebra

/-- The kind of number that one lane holds. -/
inductive TypeCode where
  /-- Signed integers in two's complement. -/
  | int
  /-- Unsigned integers. -/
  | uint
  /-- Floating-point numbers. -/
  | float
  /-- Floating-point numbers with a short significand. -/
  | bfloat
  /-- Truth values. -/
  | bool
  deriving DecidableEq, Repr, Inhabited

/-- The type of an expression. A scalar has exactly one lane. -/
structure DataType where
  code : TypeCode
  bits : Nat
  lanes : Nat
  deriving DecidableEq, Repr, Inhabited

namespace TypeCode

/-- Every code, in the order of types. -/
def all : List TypeCode := [int, uint, float, bfloat, bool]

/-- The word a written type begins with. -/
def name : TypeCode → String
  | int => "int"
  | uint => "uint"
  | float => "float"
  | bfloat => "bfloat"
  | bool => "bool"

/-- The position of a code in the order of types. -/
def rank : TypeCode → Nat
  | int => 0
  | uint => 1
  | float => 2
  | bfloat => 3
  | bool => 4

theorem rank_injective {first second : TypeCode} (equal : first.rank = second.rank) :
    first = second := by
  cases first <;> cases second <;> simp_all [rank]

end TypeCode

namespace DataType

/-! ### Common types -/

/-- A scalar type. -/
def scalar (code : TypeCode) (bits : Nat) : DataType := ⟨code, bits, 1⟩

/-- The scalar type of truth values, which are one bit wide. -/
def bool : DataType := scalar .bool 1

/-- The usual type of an index. -/
def int32 : DataType := scalar .int 32

/-- The type of an index too large for `int32`. -/
def int64 : DataType := scalar .int 64

/-- The same type with another count of lanes. -/
def withLanes (dtype : DataType) (lanes : Nat) : DataType := { dtype with lanes }

/-- The type of a single lane. -/
def element (dtype : DataType) : DataType := dtype.withLanes 1

/-! ### Classification -/

/-- The type holds signed integers. -/
def isInt (dtype : DataType) : Bool := dtype.code == .int

/-- The type holds unsigned integers. -/
def isUint (dtype : DataType) : Bool := dtype.code == .uint

/-- The type holds integers, signed or not. -/
def isInteger (dtype : DataType) : Bool := dtype.isInt || dtype.isUint

/-- The type holds floating-point numbers of either format. -/
def isFloat (dtype : DataType) : Bool := dtype.code == .float || dtype.code == .bfloat

/-- The type holds truth values. -/
def isBool (dtype : DataType) : Bool := dtype.code == .bool

/-- The type has exactly one lane. -/
def isScalar (dtype : DataType) : Bool := dtype.lanes == 1

/-- The type has several lanes. A type without lanes is neither scalar nor vector. -/
def isVector (dtype : DataType) : Bool := decide (1 < dtype.lanes)

/-! ### Range of one lane -/

/-- The smallest integer that one lane holds, for integers and truth values. Lanes of 64 bits
or more start at the smallest word. -/
def minInt? (dtype : DataType) : Option Int :=
  match dtype.code with
  | .int => some (if 64 ≤ dtype.bits then Word.least else -twoPow (dtype.bits - 1))
  | .uint | .bool => some 0
  | .float | .bfloat => none

/-- The greatest integer that one lane holds, for integers and truth values. Lanes too wide
for a word end at the greatest word. -/
def maxInt? (dtype : DataType) : Option Int :=
  match dtype.code with
  | .int => some (if 64 ≤ dtype.bits then Word.greatest else twoPow (dtype.bits - 1) - 1)
  | .uint => some (if 63 ≤ dtype.bits then Word.greatest else twoPow dtype.bits - 1)
  | .bool => some 1
  | .float | .bfloat => none

/-- One lane can hold the integer. A floating-point lane holds every integer, rounded. -/
def fits (dtype : DataType) (value : Int) : Bool :=
  match dtype.minInt?, dtype.maxInt? with
  | some least, some greatest => decide (least ≤ value ∧ value ≤ greatest)
  | _, _ => dtype.isFloat

/-! ### Order -/

/-- Types are ordered by code, then by bits, then by lanes. -/
def compare (first second : DataType) : Ordering :=
  (Ord.compare first.code.rank second.code.rank).then
    ((Ord.compare first.bits second.bits).then (Ord.compare first.lanes second.lanes))

theorem compare_eq_iff {first second : DataType} :
    compare first second = .eq ↔ first = second := by
  obtain ⟨code, bits, lanes⟩ := first
  obtain ⟨code', bits', lanes'⟩ := second
  have codes : code.rank = code'.rank ↔ code = code' :=
    ⟨TypeCode.rank_injective, congrArg TypeCode.rank⟩
  simp [compare, Ordering.then_eq_eq, codes]

instance : Ord DataType := ⟨DataType.compare⟩

/-! ### Written form -/

/-- The written form: `int32`, `float16x4`, `bool`. -/
def text (dtype : DataType) : String :=
  dtype.code.name ++ (if dtype.isBool then "" else toString dtype.bits) ++
    (if dtype.isVector then "x" ++ toString dtype.lanes else "")

instance : ToString DataType := ⟨text⟩

/-- The number that a run of decimal digits writes. -/
def readDigits? (digits : List Char) : Option Nat :=
  if digits.isEmpty || digits.any (fun digit => !digit.isDigit) then none
  else some (digits.foldl (fun number digit => number * 10 + (digit.toNat - '0'.toNat)) 0)

/-- The count of lanes that ends a written type; a type that ends before it is scalar. -/
def readLanes? : List Char → Option Nat
  | [] => some 1
  | 'x' :: digits => (readDigits? digits).filter (· ≤ 65535)
  | _ => none

/-- The type that a text writes. Lanes of up to 128 bits and up to 65535 lanes can be written,
and truth values have no width. -/
def ofText? (text : String) : Option DataType :=
  TypeCode.all.findSome? fun code => do
    let rest ← code.name.toList.isPrefixOf? text.toList
    match code with
    | .bool => return ⟨.bool, 1, ← readLanes? rest⟩
    | _ =>
      let bits ← (readDigits? (rest.takeWhile Char.isDigit)).filter
        (fun bits => 1 ≤ bits && bits ≤ 128)
      return ⟨code, bits, ← readLanes? (rest.dropWhile Char.isDigit)⟩

end DataType

end IndexAlgebra
