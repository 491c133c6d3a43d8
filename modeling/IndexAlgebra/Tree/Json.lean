/-
This file reads and writes trees as JSON text. A text is refused when it is not JSON, when a
number is too large for a floating-point number, or when it is nested too deeply. Integers are
read back as they were written, and a floating-point number may be read back as a neighbour.
-/
import IndexAlgebra.Tree.Number

namespace IndexAlgebra.Tree

/-! ### Reading -/

/-- The deepest nesting of lists and records that is read. -/
def nestingLimit : Nat := 127

/-- The characters after the blanks at the front. -/
def skipBlanks (chars : List Char) : List Char :=
  chars.dropWhile fun char => char == ' ' || char == '\t' || char == '\n' || char == '\r'

/-- The value of a hexadecimal digit. -/
def hexDigit? (digit : Char) : Option Nat :=
  if digit.isDigit then some (digit.toNat - '0'.toNat)
  else if 'a' ≤ digit ∧ digit ≤ 'f' then some (digit.toNat - 'a'.toNat + 10)
  else if 'A' ≤ digit ∧ digit ≤ 'F' then some (digit.toNat - 'A'.toNat + 10)
  else none

/-- The number that four hexadecimal digits write. -/
def hexUnit? (first second third fourth : Char) : Option Nat := do
  let digits ← [first, second, third, fourth].mapM hexDigit?
  return digits.foldl (fun number digit => number * 16 + digit) 0

/-- The character that a single letter after a backslash stands for. -/
def escaped? : Char → Option Char
  | '"' => some '"'
  | '\\' => some '\\'
  | '/' => some '/'
  | 'b' => some '\x08'
  | 'f' => some '\x0c'
  | 'n' => some '\n'
  | 'r' => some '\r'
  | 't' => some '\t'
  | _ => none

/-- The characters up to the closing quote and those after it. A character beyond the first
65536 is written as two units. -/
def readString? : List Char → Option (List Char × List Char)
  | [] => none
  | '"' :: rest => some ([], rest)
  | '\\' :: 'u' :: a :: b :: c :: d :: '\\' :: 'u' :: e :: f :: g :: h :: rest => do
    let unit ← hexUnit? a b c d
    if 0xD800 ≤ unit && unit < 0xDC00 then
      let second ← (hexUnit? e f g h).filter fun second => 0xDC00 ≤ second && second < 0xE000
      let (chars, rest) ← readString? rest
      return (Char.ofNat (0x10000 + (unit - 0xD800) * 0x400 + (second - 0xDC00)) :: chars, rest)
    else if 0xDC00 ≤ unit && unit < 0xE000 then none
    else
      let (chars, rest) ← readString? ('\\' :: 'u' :: e :: f :: g :: h :: rest)
      return (Char.ofNat unit :: chars, rest)
  | '\\' :: 'u' :: a :: b :: c :: d :: rest => do
    let unit ← (hexUnit? a b c d).filter fun unit => unit < 0xD800 || 0xE000 ≤ unit
    let (chars, rest) ← readString? rest
    return (Char.ofNat unit :: chars, rest)
  | '\\' :: letter :: rest => do
    let char ← escaped? letter
    let (chars, rest) ← readString? rest
    return (char :: chars, rest)
  | char :: rest =>
    if char.toNat < 0x20 || char == '\\' then none
    else do
      let (chars, rest) ← readString? rest
      return (char :: chars, rest)

/-- The field in front of other fields. A later field of the same name takes its place. -/
def consField (name : String) (value : Tree) (fields : List (String × Tree)) :
    List (String × Tree) :=
  if (fields.lookup name).isSome then fields else (name, value) :: fields

mutual

/-- A tree and what follows it. Every call reads at least one character or is followed by one
that does, so that twice the number of characters is fuel enough. -/
def readJson? : Nat → Nat → List Char → Option (Tree × List Char)
  | 0, _, _ => none
  | fuel + 1, nesting, chars =>
    match skipBlanks chars with
    | 'n' :: 'u' :: 'l' :: 'l' :: rest => some (.null, rest)
    | 't' :: 'r' :: 'u' :: 'e' :: rest => some (.bool true, rest)
    | 'f' :: 'a' :: 'l' :: 's' :: 'e' :: rest => some (.bool false, rest)
    | '"' :: rest => (readString? rest).map fun (chars, rest) => (.text (String.ofList chars), rest)
    | '[' :: rest =>
      if nesting = 0 then none
      else
        match skipBlanks rest with
        | ']' :: rest => some (.list [], rest)
        | rest => (readItems? fuel (nesting - 1) rest).map fun (items, rest) => (.list items, rest)
    | '\x7b' :: rest =>
      if nesting = 0 then none
      else
        match skipBlanks rest with
        | '\x7d' :: rest => some (.record [], rest)
        | rest =>
          (readFields? fuel (nesting - 1) rest).map fun (fields, rest) => (.record fields, rest)
    | chars => readNumber? chars

/-- The items of a list up to its end and what follows it. -/
def readItems? : Nat → Nat → List Char → Option (List Tree × List Char)
  | 0, _, _ => none
  | fuel + 1, nesting, chars => do
    let (item, rest) ← readJson? fuel nesting chars
    match skipBlanks rest with
    | ']' :: rest => return ([item], rest)
    | ',' :: rest =>
      let (items, rest) ← readItems? fuel nesting rest
      return (item :: items, rest)
    | _ => none

/-- The fields of a record up to its end and what follows it. -/
def readFields? : Nat → Nat → List Char → Option (List (String × Tree) × List Char)
  | 0, _, _ => none
  | fuel + 1, nesting, chars =>
    match skipBlanks chars with
    | '"' :: rest => do
      let (name, rest) ← readString? rest
      match skipBlanks rest with
      | ':' :: rest =>
        let (value, rest) ← readJson? fuel nesting rest
        match skipBlanks rest with
        | '\x7d' :: rest => return ([(String.ofList name, value)], rest)
        | ',' :: rest =>
          let (fields, rest) ← readFields? fuel nesting rest
          return (consField (String.ofList name) value fields, rest)
        | _ => none
      | _ => none
    | _ => none

end

/-- The tree that a text writes. -/
def ofJson? (text : String) : Option Tree := do
  let chars := text.toList
  let (tree, rest) ← readJson? (2 * chars.length + 1) nestingLimit chars
  if (skipBlanks rest).isEmpty then return tree else none

/-! ### Writing -/

/-- A hexadecimal digit. -/
def hexDigit (digit : Nat) : Char := "0123456789abcdef".toList.getD digit '0'

/-- The letter that stands for a character after a backslash. -/
def shortEscape? : Char → Option Char
  | '"' => some '"'
  | '\\' => some '\\'
  | '\x08' => some 'b'
  | '\x0c' => some 'f'
  | '\n' => some 'n'
  | '\r' => some 'r'
  | '\t' => some 't'
  | _ => none

/-- A character inside quotes. -/
def escape (char : Char) : List Char :=
  match shortEscape? char with
  | some letter => ['\\', letter]
  | none =>
    if char.toNat < 0x20 then
      ['\\', 'u', '0', '0', hexDigit (char.toNat / 16), hexDigit (char.toNat % 16)]
    else [char]

/-- A text in quotes. -/
def quote (text : String) : String := "\"" ++ String.ofList (text.toList.flatMap escape) ++ "\""

mutual

/-- The text of a tree. A number that is not finite has no text of its own, and of two shortest
decimal numbers that are equally near the one with an even last digit is written. -/
def toJson : Tree → String
  | null => "null"
  | bool value => if value then "true" else "false"
  | int value => toString value
  | float value => if value.isFinite then value.textBy .toEven else "null"
  | text value => quote value
  | list items => "[" ++ ",".intercalate (toJsonList items) ++ "]"
  | record fields => "\x7b" ++ ",".intercalate (toJsonFields fields) ++ "\x7d"

/-- The text of each item. -/
def toJsonList : List Tree → List String
  | [] => []
  | item :: rest => toJson item :: toJsonList rest

/-- The text of each field. -/
def toJsonFields : List (String × Tree) → List String
  | [] => []
  | (name, value) :: rest => (quote name ++ ":" ++ toJson value) :: toJsonFields rest

end

end IndexAlgebra.Tree
