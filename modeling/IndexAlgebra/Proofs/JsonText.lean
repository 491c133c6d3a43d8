/-
This file proves that the text of a tree is read back as the tree. It does so for trees without
floating-point numbers, whose integers have 64 bits and whose records name each field once. A reader
that stops at a limit of nesting reads a text back if the tree is not nested any deeper.
-/
import IndexAlgebra.Tree.Json
import Mathlib.Data.List.Basic

namespace IndexAlgebra.Tree

/-! ### Trees that a text stands for -/

mutual

/-- The number of lists and records around each other. -/
def nesting : Tree → Nat
  | list items => nestingList items + 1
  | record fields => nestingFields fields + 1
  | _ => 0

/-- The nesting of the deepest item. -/
def nestingList : List Tree → Nat
  | [] => 0
  | item :: rest => max item.nesting (nestingList rest)

/-- The nesting of the deepest field. -/
def nestingFields : List (String × Tree) → Nat
  | [] => 0
  | (_, item) :: rest => max item.nesting (nestingFields rest)

end

mutual

/-- The text of the tree says all of it: every number is an integer of 64 bits, signed or not, and
every field of a record has its own name. -/
def Exact : Tree → Prop
  | int value => Word.least ≤ value ∧ value < Word.size
  | float _ => False
  | list items => ExactList items
  | record fields => ExactFields fields
  | _ => True

/-- The text of every item says all of it. -/
def ExactList : List Tree → Prop
  | [] => True
  | item :: rest => item.Exact ∧ ExactList rest

/-- The text of every field says all of it, and no name occurs again. -/
def ExactFields : List (String × Tree) → Prop
  | [] => True
  | (name, item) :: rest => item.Exact ∧ rest.lookup name = none ∧ ExactFields rest

end

variable {char : Char} {chars digits rest : List Char} {fuel depth : Nat}

/-! ### Quoted texts -/

theorem escaped?_of_shortEscape? {letter : Char} (short : shortEscape? char = some letter) :
    letter ≠ 'u' ∧ escaped? letter = some char := by
  unfold shortEscape? at short
  split at short <;> first | (cases short; exact ⟨by decide, rfl⟩) | cases short

/-- The four digits of a control character stand for it. -/
theorem hexUnit?_control {unit : Nat} (small : unit < 32) :
    hexUnit? '0' '0' (hexDigit (unit / 16)) (hexDigit (unit % 16)) = some unit := by
  decide +revert

/-- Four hexadecimal digits are read as one character, whatever follows them, unless it takes two
units to write the character. -/
theorem readString?_unit {first second third fourth : Char} {unit : Nat}
    (isUnit : hexUnit? first second third fourth = some unit) (small : unit < 0xD800) :
    readString? ('\\' :: 'u' :: first :: second :: third :: fourth :: rest) =
      (readString? rest).map fun found => (Char.ofNat unit :: found.1, found.2) := by
  have low : ¬ 0xD800 ≤ unit := Nat.not_le.mpr small
  -- The reader looks ahead for the second unit of a character before it looks at the first one.
  by_cases pair : ∃ a b c d tail, rest = '\\' :: 'u' :: a :: b :: c :: d :: tail
  · obtain ⟨a, b, c, d, tail, rfl⟩ := pair
    have notSecond : ¬ 0xDC00 ≤ unit := by omega
    rw [readString?, isUnit]
    simp only [Option.bind_eq_bind, Option.bind_some, low, notSecond, decide_false, Bool.false_and,
      Bool.false_eq_true, if_false]
    cases readString? ('\\' :: 'u' :: a :: b :: c :: d :: tail) <;> rfl
  · have single : ∀ a b c d tail, rest = '\\' :: 'u' :: a :: b :: c :: d :: tail → False :=
      fun a b c d tail equal => pair ⟨a, b, c, d, tail, equal⟩
    rw [readString?.eq_4 _ _ _ _ _ single, isUnit]
    simp only [Option.filter_some, small, decide_true, Bool.true_or, if_true, Option.bind_eq_bind,
      Option.bind_some]
    cases readString? rest <;> rfl

/-- A letter after a backslash is read as the character that it stands for. -/
theorem readString?_letter {letter : Char} (stands : letter ≠ 'u' ∧ escaped? letter = some char) :
    readString? ('\\' :: letter :: rest) =
      (readString? rest).map fun found => (char :: found.1, found.2) := by
  rw [readString?.eq_5 letter rest (fun _ _ _ _ _ _ _ _ _ isU _ => stands.1 isU)
    (fun _ _ _ _ _ isU _ => stands.1 isU), stands.2]
  cases readString? rest <;> rfl

/-- A character that is written as it is is read as it is. -/
theorem readString?_plain (notQuote : char ≠ '"') (notBackslash : char ≠ '\\')
    (notControl : ¬ char.toNat < 0x20) :
    readString? (char :: rest) = (readString? rest).map fun found => (char :: found.1, found.2) := by
  rw [readString?.eq_6 char rest notQuote
    (fun _ _ _ _ _ _ _ _ _ isBackslash _ => notBackslash isBackslash)
    (fun _ _ _ _ _ isBackslash _ => notBackslash isBackslash)
    (fun _ _ isBackslash _ => notBackslash isBackslash)]
  rw [if_neg (by simp [notControl, notBackslash])]
  cases readString? rest <;> rfl

/-- A character inside quotes is read as the character. -/
theorem readString?_escape (char : Char) (rest : List Char) :
    readString? (escape char ++ rest) =
      (readString? rest).map fun found => (char :: found.1, found.2) := by
  unfold escape
  split
  next letter short => exact readString?_letter (escaped?_of_shortEscape? short)
  next noLetter =>
    split
    next control =>
      exact (readString?_unit (hexUnit?_control control) (by omega)).trans (by rw [Char.ofNat_toNat]; rfl)
    next notControl =>
      refine readString?_plain ?_ ?_ notControl
      · rintro rfl
        cases noLetter
      · rintro rfl
        cases noLetter

/-- What is put in quotes is read back up to the closing quote. -/
theorem readString?_quoted (chars rest : List Char) :
    readString? (chars.flatMap escape ++ '"' :: rest) = some (chars, rest) := by
  induction chars with
  | nil => rfl
  | cons char chars inductionHypothesis =>
    rw [List.flatMap_cons, List.append_assoc, readString?_escape, inductionHypothesis]
    rfl

theorem toList_quote (text : String) :
    (quote text).toList = '"' :: (text.toList.flatMap escape ++ ['"']) := by
  simp [quote]

/-! ### Integers -/

/-- What follows a value: the end, or a mark that ends an item or a list or a record. -/
def Follows (rest : List Char) : Prop :=
  ∀ char, rest.head? = some char → char = ',' ∨ char = ']' ∨ char = '\x7d'

theorem follows_nil : Follows [] := by
  intro char isHead
  cases isHead

theorem follows_cons (mark : char = ',' ∨ char = ']' ∨ char = '\x7d') : Follows (char :: rest) := by
  intro head isHead
  cases isHead
  exact mark

/-- A decimal number begins with a zero only if it is zero. -/
theorem head?_toDigits_ne_zero {value : Nat} (positive : value ≠ 0) :
    (Nat.toDigits 10 value).head? ≠ some '0' := by
  induction value using Nat.strongRecOn with
  | ind value inductionHypothesis =>
    rcases Nat.lt_or_ge value 10 with digit | long
    · rw [Nat.toDigits_of_lt_base digit]
      intro isZero
      exact positive (Nat.digitChar_eq_zero.mp (Option.some.inj isZero))
    · rw [Nat.toDigits_of_base_le (by decide) long, List.head?_append_of_ne_nil _ Nat.toDigits_ne_nil]
      exact inductionHypothesis (value / 10) (by omega) (by omega)

theorem readDigits_toDigits (value : Nat) : Binary64.readDigits (Nat.toDigits 10 value) = value := by
  have read := Nat.ofDigitChars_toDigits (b := 10) (n := value) (by decide) (by decide)
  rw [Nat.ofDigitChars_eq_foldl] at read
  simpa only [Binary64.readDigits, Nat.mul_comm] using read

theorem not_isDigit_of_follows (follows : Follows rest) :
    ∀ char, rest.head? = some char → char.isDigit = false := by
  intro char isHead
  rcases follows char isHead with rfl | rfl | rfl <;> decide

/-- The digits of a number are taken as a whole. -/
theorem spanDigits?_toDigits (value : Nat) (follows : Follows rest) :
    spanDigits? (Nat.toDigits 10 value ++ rest) = some (Nat.toDigits 10 value, rest) := by
  have digits : ∀ digit ∈ Nat.toDigits 10 value, digit.isDigit = true := fun digit isMember =>
    Nat.isDigit_of_mem_toDigits (by decide) (by decide) isMember
  have taken : rest.takeWhile Char.isDigit = [] ∧ rest.dropWhile Char.isDigit = rest := by
    cases rest with
    | nil => exact ⟨rfl, rfl⟩
    | cons char rest =>
      have notDigit := not_isDigit_of_follows follows char rfl
      simp [notDigit]
  rw [spanDigits?, List.takeWhile_append_of_pos digits, List.dropWhile_append_of_pos digits, taken.1,
    taken.2, List.append_nil]
  simp [Nat.toDigits_ne_nil]

/-- The digits of a number have no fraction and no power behind them. -/
theorem spanNumeral?_toDigits (value : Nat) (follows : Follows rest) :
    spanNumeral? (Nat.toDigits 10 value ++ rest) =
      some (⟨Nat.toDigits 10 value, [], none⟩, rest) := by
  have zero : ((Nat.toDigits 10 value).head? == some '0' && (Nat.toDigits 10 value).length ≠ 1) =
      false := by
    by_cases isZero : value = 0
    · rw [isZero, Nat.toDigits_zero]
      rfl
    · simp [head?_toDigits_ne_zero isZero]
  have fraction : spanFraction? rest = some ([], rest) := by
    cases rest with
    | nil => rfl
    | cons char rest => rcases follows char rfl with rfl | rfl | rfl <;> rfl
  have power : spanPower? rest = some (none, rest) := by
    cases rest with
    | nil => rfl
    | cons char rest => rcases follows char rfl with rfl | rfl | rfl <;> rfl
  simp only [spanNumeral?, spanDigits?_toDigits value follows, Option.bind_eq_bind, Option.bind_some,
    zero, Bool.false_eq_true, if_false, fraction, power]
  rfl

/-- Digits alone are the integer that they write, if it has 64 bits. Zero has no sign. -/
theorem toTree?_toDigits {negative : Bool} {value : Nat} {number : Int}
    (isNumber : (if negative then -(value : Int) else value) = number)
    (fits : Word.least ≤ number ∧ number < Word.size) (unsigned : negative = true → number ≠ 0) :
    Numeral.toTree? negative ⟨Nat.toDigits 10 value, [], none⟩ = some (.int number) := by
  have signed : (negative && number == 0) = false := by
    cases negative with
    | false => rfl
    | true => simpa using unsigned rfl
  simp only [Numeral.toTree?, Numeral.isWhole, readDigits_toDigits, isNumber, signed]
  simp [fits]

theorem readNumber?_unsigned {numeral : Numeral} {tree : Tree} (notMinus : chars.head? ≠ some '-')
    (spans : spanNumeral? chars = some (numeral, rest)) (isTree : numeral.toTree? false = some tree) :
    readNumber? chars = some (tree, rest) := by
  unfold readNumber?
  split
  next negative chars' sign =>
    split at sign
    next => exact absurd rfl notMinus
    next =>
      cases sign
      rw [spans]
      simp only [Option.bind_eq_bind, Option.bind_some, isTree]
      rfl

theorem readNumber?_negative {numeral : Numeral} {tree : Tree}
    (spans : spanNumeral? chars = some (numeral, rest)) (isTree : numeral.toTree? true = some tree) :
    readNumber? ('-' :: chars) = some (tree, rest) := by
  unfold readNumber?
  split
  next negative chars' sign =>
    have isSign : (true, chars) = (negative, chars') := sign
    cases isSign
    rw [spans]
    simp only [Option.bind_eq_bind, Option.bind_some, isTree]
    rfl

theorem head?_toDigits_ne_minus (value : Nat) (rest : List Char) :
    (Nat.toDigits 10 value ++ rest).head? ≠ some '-' := by
  rw [List.head?_append_of_ne_nil _ Nat.toDigits_ne_nil]
  intro isMinus
  have isDigit : '-'.isDigit = true :=
    Nat.isDigit_of_mem_toDigits (b := 10) (by decide) (by decide) (List.mem_of_head? isMinus)
  exact absurd isDigit (by decide)

/-- An integer is read up to what follows it. -/
theorem readNumber?_int {number : Int} (fits : Word.least ≤ number ∧ number < Word.size)
    (follows : Follows rest) :
    readNumber? ((toJson (int number)).toList ++ rest) = some (int number, rest) := by
  have text : (toJson (int number)).toList = number.repr.toList := by
    rw [toJson, Int.toString_eq_repr]
  rw [text, Int.repr_eq_if]
  split
  next isNatural =>
    rw [Nat.repr_eq_ofList_toDigits, String.toList_ofList]
    exact readNumber?_unsigned (head?_toDigits_ne_minus _ _) (spanNumeral?_toDigits _ follows)
      (toTree?_toDigits (Int.toNat_of_nonneg isNatural) fits (by simp))
  next isNegative =>
    have signed (digits : List Char) : ("-" ++ String.ofList digits).toList ++ rest =
        '-' :: (digits ++ rest) := by simp
    rw [Nat.repr_eq_ofList_toDigits, signed]
    have isNumber : -((-number).toNat : Int) = number := by omega
    exact readNumber?_negative (spanNumeral?_toDigits _ follows)
      (toTree?_toDigits isNumber fits fun _ => by omega)

/-! ### Blanks -/

/-- The character is no blank. -/
def IsMark (char : Char) : Prop := char ≠ ' ' ∧ char ≠ '\t' ∧ char ≠ '\n' ∧ char ≠ '\r'

instance (char : Char) : Decidable (IsMark char) := by unfold IsMark; infer_instance

theorem skipBlanks_cons (mark : IsMark char) : skipBlanks (char :: rest) = char :: rest := by
  obtain ⟨notSpace, notTab, notLine, notReturn⟩ := mark
  simp [skipBlanks, notSpace, notTab, notLine, notReturn]

/-- An integer begins with a digit or a minus sign. -/
theorem exists_int_cons (value : Int) : ∃ char rest, (toJson (int value)).toList = char :: rest ∧
    (char.isDigit = true ∨ char = '-') := by
  rw [toJson, Int.toString_eq_repr, Int.repr_eq_if]
  split
  next =>
    obtain ⟨digit, digits, isDigits⟩ :=
      List.exists_cons_of_ne_nil (Nat.toDigits_ne_nil (b := 10) (n := value.toNat))
    refine ⟨digit, digits, by rw [Nat.repr_eq_ofList_toDigits, String.toList_ofList, isDigits], .inl ?_⟩
    exact Nat.isDigit_of_mem_toDigits (b := 10) (n := value.toNat) (by decide) (by decide)
      (isDigits ▸ List.mem_cons_self)
  next => exact ⟨'-', _, by rw [String.toList_append]; rfl, .inr rfl⟩

theorem ne_of_isDigit {digit other : Char} (isDigit : digit.isDigit = true ∨ digit = '-')
    (notDigit : (other.isDigit || other == '-') = false) : digit ≠ other := by
  rintro rfl
  rcases isDigit with isDigit | rfl
  · simp [isDigit] at notDigit
  · simp at notDigit

theorem isMark_of_isDigit (isDigit : char.isDigit = true ∨ char = '-') : IsMark char :=
  ⟨ne_of_isDigit isDigit (by decide), ne_of_isDigit isDigit (by decide),
    ne_of_isDigit isDigit (by decide), ne_of_isDigit isDigit (by decide)⟩

/-- The text of a tree begins with a character that is no blank and ends no list or record. -/
theorem exists_toJson_cons (tree : Tree) (exact : tree.Exact) :
    ∃ char rest, tree.toJson.toList = char :: rest ∧ IsMark char ∧ char ≠ ']' ∧ char ≠ '}' := by
  cases tree with
  | null => exact ⟨'n', _, by rw [toJson]; rfl, by decide⟩
  | bool value =>
    cases value
    · exact ⟨'f', _, by rw [toJson]; rfl, by decide⟩
    · exact ⟨'t', _, by rw [toJson]; rfl, by decide⟩
  | int value =>
    obtain ⟨char, rest, isText, isDigit⟩ := exists_int_cons value
    exact ⟨char, rest, isText, isMark_of_isDigit isDigit, ne_of_isDigit isDigit (by decide),
      ne_of_isDigit isDigit (by decide)⟩
  | float value => exact exact.elim
  | text value => exact ⟨'"', _, by rw [toJson, toList_quote], by decide⟩
  | list items => exact ⟨'[', _, by rw [toJson, String.append_assoc, String.toList_append]; rfl, by decide⟩
  | record fields =>
    exact ⟨'{', _, by rw [toJson, String.append_assoc, String.toList_append]; rfl, by decide⟩

/-! ### Trees -/

section

variable {nesting : Nat}

theorem readJson?_null : readJson? (fuel + 1) nesting ((toJson null).toList ++ rest) =
    some (null, rest) := by
  rw [toJson]
  rfl

theorem readJson?_bool (value : Bool) :
    readJson? (fuel + 1) nesting ((toJson (bool value)).toList ++ rest) = some (bool value, rest) := by
  rw [toJson]
  cases value <;> rfl

theorem readJson?_text (value : String) :
    readJson? (fuel + 1) nesting ((toJson (text value)).toList ++ rest) = some (text value, rest) := by
  rw [toJson, toList_quote, List.cons_append, List.append_assoc, List.singleton_append, readJson?,
    skipBlanks_cons (by decide)]
  simp only [readString?_quoted, Option.map_some, String.ofList_toList]

theorem readJson?_int {value : Int} (fits : Word.least ≤ value ∧ value < Word.size)
    (follows : Follows rest) :
    readJson? (fuel + 1) nesting ((toJson (int value)).toList ++ rest) = some (int value, rest) := by
  rw [← readNumber?_int fits follows]
  obtain ⟨char, tail, isText, isDigit⟩ := exists_int_cons value
  rw [isText, List.cons_append, readJson?, skipBlanks_cons (isMark_of_isDigit isDigit)]
  have other (mark : Char) (notDigit : (mark.isDigit || mark == '-') = false) : char ≠ mark :=
    ne_of_isDigit isDigit notDigit
  split
  next isNull => exact absurd (List.cons.inj isNull).1 (other 'n' (by decide))
  next isTrue => exact absurd (List.cons.inj isTrue).1 (other 't' (by decide))
  next isFalse => exact absurd (List.cons.inj isFalse).1 (other 'f' (by decide))
  next isText => exact absurd (List.cons.inj isText).1 (other '"' (by decide))
  next isList => exact absurd (List.cons.inj isList).1 (other '[' (by decide))
  next isRecord => exact absurd (List.cons.inj isRecord).1 (other '{' (by decide))
  next => rfl

/-- The text of several items or fields begins with the text of the first one. -/
theorem exists_intercalate_cons (first : String) (texts : List String) :
    ∃ tail, (",".intercalate (first :: texts)).toList = first.toList ++ tail := by
  cases texts with
  | nil => exact ⟨[], by rw [String.intercalate_singleton, List.append_nil]⟩
  | cons second texts =>
    refine ⟨',' :: (",".intercalate (second :: texts)).toList, ?_⟩
    rw [String.intercalate_cons_cons, String.toList_append, String.toList_append, List.append_assoc]
    rfl

theorem toList_toJson_list (items : List Tree) : (toJson (list items)).toList =
    '[' :: ((",".intercalate (toJsonList items)).toList ++ [']']) := by
  simp [toJson]

theorem toList_toJson_record (fields : List (String × Tree)) : (toJson (record fields)).toList =
    '{' :: ((",".intercalate (toJsonFields fields)).toList ++ ['}']) := by
  simp [toJson]

/-- A list is read if its items are. -/
theorem readJson?_list {item : Tree} {items : List Tree} (exact : item.Exact)
    (read : readItems? fuel nesting ((",".intercalate (toJsonList (item :: items))).toList ++
      ']' :: rest) = some (item :: items, rest)) :
    readJson? (fuel + 1) (nesting + 1) ((toJson (list (item :: items))).toList ++ rest) =
      some (list (item :: items), rest) := by
  obtain ⟨char, tail, begins, mark, notEnd, -⟩ := exists_toJson_cons item exact
  obtain ⟨others, isText⟩ := exists_intercalate_cons item.toJson (toJsonList items)
  rw [toJsonList, isText, begins, List.cons_append, List.cons_append] at read
  rw [toList_toJson_list, toJsonList, isText, begins, List.cons_append, List.append_assoc,
    List.singleton_append, List.cons_append, List.cons_append, readJson?, skipBlanks_cons (by decide)]
  simp only [Nat.add_one_ne_zero, if_false, skipBlanks_cons mark, Nat.add_sub_cancel]
  split
  next isEnd => exact absurd (List.cons.inj isEnd).1 notEnd
  next =>
    rw [read]
    rfl

/-- A record is read if its fields are. -/
theorem readJson?_record {name : String} {item : Tree} {fields : List (String × Tree)}
    (read : readFields? fuel nesting ((",".intercalate (toJsonFields ((name, item) :: fields))).toList ++
      '}' :: rest) = some ((name, item) :: fields, rest)) :
    readJson? (fuel + 1) (nesting + 1) ((toJson (record ((name, item) :: fields))).toList ++ rest) =
      some (record ((name, item) :: fields), rest) := by
  obtain ⟨others, isText⟩ := exists_intercalate_cons (quote name ++ ":" ++ item.toJson)
    (toJsonFields fields)
  rw [String.toList_append, String.toList_append, toList_quote] at isText
  rw [toJsonFields, isText] at read
  rw [toList_toJson_record, toJsonFields, isText, List.cons_append, List.append_assoc,
    List.singleton_append, readJson?, skipBlanks_cons (by decide)]
  simp only [Nat.add_one_ne_zero, if_false, List.cons_append, skipBlanks_cons (show IsMark '"' by decide),
    Nat.add_sub_cancel] at read ⊢
  split
  next isEnd => exact absurd (List.cons.inj isEnd).1 (by decide)
  next =>
    rw [read]
    rfl

theorem readItems?_last {item : Tree}
    (read : readJson? fuel nesting chars = some (item, ']' :: rest)) :
    readItems? (fuel + 1) nesting chars = some ([item], rest) := by
  rw [readItems?, read]
  simp only [Option.bind_eq_bind, Option.bind_some, skipBlanks_cons (show IsMark ']' by decide)]
  rfl

theorem readItems?_more {item : Tree} {items : List Tree} {more : List Char}
    (read : readJson? fuel nesting chars = some (item, ',' :: more))
    (others : readItems? fuel nesting more = some (items, rest)) :
    readItems? (fuel + 1) nesting chars = some (item :: items, rest) := by
  rw [readItems?, read]
  simp only [Option.bind_eq_bind, Option.bind_some, skipBlanks_cons (show IsMark ',' by decide), others]
  rfl

theorem readFields?_last {name : String} {item : Tree}
    (read : readJson? fuel nesting chars = some (item, '}' :: rest)) :
    readFields? (fuel + 1) nesting ((quote name).toList ++ ':' :: chars) = some ([(name, item)], rest) := by
  rw [toList_quote, List.cons_append, List.append_assoc, List.singleton_append, readFields?,
    skipBlanks_cons (by decide)]
  simp only [readString?_quoted, Option.bind_eq_bind, Option.bind_some,
    skipBlanks_cons (show IsMark ':' by decide), read, skipBlanks_cons (show IsMark '}' by decide),
    String.ofList_toList]
  rfl

theorem readFields?_more {name : String} {item : Tree} {fields : List (String × Tree)}
    {more : List Char} (read : readJson? fuel nesting chars = some (item, ',' :: more))
    (others : readFields? fuel nesting more = some (fields, rest)) (isNew : fields.lookup name = none) :
    readFields? (fuel + 1) nesting ((quote name).toList ++ ':' :: chars) =
      some ((name, item) :: fields, rest) := by
  rw [toList_quote, List.cons_append, List.append_assoc, List.singleton_append, readFields?,
    skipBlanks_cons (by decide)]
  simp only [readString?_quoted, Option.bind_eq_bind, Option.bind_some,
    skipBlanks_cons (show IsMark ':' by decide), read, skipBlanks_cons (show IsMark ',' by decide),
    others, String.ofList_toList, consField, isNew]
  rfl

end

theorem toList_intercalate_cons_cons (first second : String) (texts : List String) (rest : List Char) :
    (",".intercalate (first :: second :: texts)).toList ++ rest =
      first.toList ++ ',' :: ((",".intercalate (second :: texts)).toList ++ rest) := by
  rw [String.intercalate_cons_cons]
  simp

theorem length_intercalate_cons_cons (first second : String) (texts : List String) :
    (",".intercalate (first :: second :: texts)).length =
      first.length + (",".intercalate (second :: texts)).length + 1 := by
  rw [String.intercalate_cons_cons, String.length_append, String.length_append]
  change first.length + 1 + _ = _
  omega

theorem toList_field (name : String) (item : Tree) (rest : List Char) :
    (quote name ++ ":" ++ item.toJson).toList ++ rest =
      (quote name).toList ++ ':' :: (item.toJson.toList ++ rest) := by
  simp

theorem length_toJson_pos {tree : Tree} (exact : tree.Exact) : 0 < tree.toJson.length := by
  obtain ⟨char, rest, isText, -⟩ := exists_toJson_cons tree exact
  rw [← String.length_toList, isText]
  exact Nat.succ_pos _

theorem length_toJson_list (items : List Tree) :
    (toJson (list items)).length = (",".intercalate (toJsonList items)).length + 2 := by
  rw [← String.length_toList, ← String.length_toList, toList_toJson_list]
  simp only [List.length_cons, List.length_append, List.length_nil]

theorem length_toJson_record (fields : List (String × Tree)) :
    (toJson (record fields)).length = (",".intercalate (toJsonFields fields)).length + 2 := by
  rw [← String.length_toList, ← String.length_toList, toList_toJson_record]
  simp only [List.length_cons, List.length_append, List.length_nil]

theorem length_field_le (name : String) (item : Tree) :
    item.toJson.length ≤ (quote name ++ ":" ++ item.toJson).length := by
  rw [String.length_append]
  exact Nat.le_add_left _ _

mutual

/-- The text of a tree is read as the tree, whatever follows it. Twice as much fuel as characters is
enough. -/
theorem readJson?_toJson : ∀ tree : Tree, tree.Exact → ∀ (fuel depth : Nat) (rest : List Char),
    tree.nesting ≤ depth → 2 * tree.toJson.length ≤ fuel + 1 → Follows rest →
      readJson? (fuel + 1) depth (tree.toJson.toList ++ rest) = some (tree, rest)
  | null, _ => fun _ _ _ _ _ _ => readJson?_null
  | bool value, _ => fun _ _ _ _ _ _ => readJson?_bool value
  | int _, exact => fun _ _ _ _ _ follows => readJson?_int exact follows
  | float _, exact => exact.elim
  | text value, _ => fun _ _ _ _ _ _ => readJson?_text value
  | list [], _ => by
    intro fuel depth rest nested _ _
    obtain ⟨inner, rfl⟩ := Nat.exists_eq_add_of_le' nested
    rw [toList_toJson_list]
    rfl
  | list (item :: items), exact => by
    intro fuel depth rest nested enough _
    obtain ⟨inner, rfl⟩ := Nat.exists_eq_add_of_le' (Nat.le_of_add_left_le nested)
    rw [length_toJson_list] at enough
    obtain ⟨less, rfl⟩ := Nat.exists_eq_add_of_le' (show 1 ≤ fuel by omega)
    exact readJson?_list exact.1 (readItems?_toJson item items exact less inner rest
      (Nat.le_of_succ_le_succ nested) (by omega))
  | record [], _ => by
    intro fuel depth rest nested _ _
    obtain ⟨inner, rfl⟩ := Nat.exists_eq_add_of_le' nested
    rw [toList_toJson_record]
    rfl
  | record ((name, item) :: fields), exact => by
    intro fuel depth rest nested enough _
    obtain ⟨inner, rfl⟩ := Nat.exists_eq_add_of_le' (Nat.le_of_add_left_le nested)
    rw [length_toJson_record] at enough
    obtain ⟨less, rfl⟩ := Nat.exists_eq_add_of_le' (show 1 ≤ fuel by omega)
    exact readJson?_record (readFields?_toJson name item fields exact less inner rest
      (Nat.le_of_succ_le_succ nested) (by omega))
termination_by tree => sizeOf tree

/-- The items of a list are read up to its end. -/
theorem readItems?_toJson : ∀ (item : Tree) (items : List Tree), ExactList (item :: items) →
    ∀ (fuel depth : Nat) (rest : List Char), nestingList (item :: items) ≤ depth →
      2 * (",".intercalate (toJsonList (item :: items))).length ≤ fuel →
        readItems? (fuel + 1) depth ((",".intercalate (toJsonList (item :: items))).toList ++
          ']' :: rest) = some (item :: items, rest)
  | item, [], exact => by
    intro fuel depth rest nested enough
    have some := length_toJson_pos exact.1
    rw [toJsonList, toJsonList, String.intercalate_singleton] at enough ⊢
    obtain ⟨less, rfl⟩ := Nat.exists_eq_add_of_le' (show 1 ≤ fuel by omega)
    exact readItems?_last (readJson?_toJson item exact.1 less depth _ (Nat.max_le.mp nested).1
      (by omega) (follows_cons (by decide)))
  | item, next :: items, exact => by
    intro fuel depth rest nested enough
    rw [toJsonList, toJsonList, length_intercalate_cons_cons, ← toJsonList] at enough
    rw [toJsonList, toJsonList, toList_intercalate_cons_cons, ← toJsonList]
    obtain ⟨less, rfl⟩ := Nat.exists_eq_add_of_le' (show 1 ≤ fuel by omega)
    exact readItems?_more (readJson?_toJson item exact.1 less depth _ (Nat.max_le.mp nested).1
      (by omega) (follows_cons (by decide)))
      (readItems?_toJson next items exact.2 less depth rest (Nat.max_le.mp nested).2 (by omega))
termination_by item items => sizeOf item + sizeOf items

/-- The fields of a record are read up to its end. -/
theorem readFields?_toJson : ∀ (name : String) (item : Tree) (fields : List (String × Tree)),
    ExactFields ((name, item) :: fields) → ∀ (fuel depth : Nat) (rest : List Char),
      nestingFields ((name, item) :: fields) ≤ depth →
        2 * (",".intercalate (toJsonFields ((name, item) :: fields))).length ≤ fuel →
          readFields? (fuel + 1) depth ((",".intercalate (toJsonFields ((name, item) :: fields))).toList ++
            '}' :: rest) = some ((name, item) :: fields, rest)
  | name, item, [], exact => by
    intro fuel depth rest nested enough
    have some := length_toJson_pos exact.1
    have field := length_field_le name item
    rw [toJsonFields, toJsonFields, String.intercalate_singleton] at enough ⊢
    obtain ⟨less, rfl⟩ := Nat.exists_eq_add_of_le' (show 1 ≤ fuel by omega)
    rw [toList_field]
    exact readFields?_last (readJson?_toJson item exact.1 less depth _ (Nat.max_le.mp nested).1
      (by omega) (follows_cons (by decide)))
  | name, item, (second, next) :: fields, exact => by
    intro fuel depth rest nested enough
    have field := length_field_le name item
    rw [toJsonFields, toJsonFields, length_intercalate_cons_cons, ← toJsonFields] at enough
    rw [toJsonFields, toJsonFields, toList_intercalate_cons_cons, ← toJsonFields, toList_field]
    obtain ⟨less, rfl⟩ := Nat.exists_eq_add_of_le' (show 1 ≤ fuel by omega)
    exact readFields?_more (readJson?_toJson item exact.1 less depth _ (Nat.max_le.mp nested).1
      (by omega) (follows_cons (by decide)))
      (readFields?_toJson second next fields exact.2.2 less depth rest (Nat.max_le.mp nested).2
        (by omega)) exact.2.1
termination_by _ item fields => sizeOf item + sizeOf fields

end

/-- The text of a tree is read back as the tree, if the tree is not nested deeper than the reader goes. -/
theorem ofJson?_toJson {tree : Tree} (exact : tree.Exact) (nested : tree.nesting ≤ nestingLimit) :
    ofJson? tree.toJson = some tree := by
  have read := readJson?_toJson tree exact (2 * tree.toJson.length) nestingLimit [] nested (by omega)
    follows_nil
  rw [List.append_nil] at read
  simp only [ofJson?, String.length_toList, read, Option.bind_eq_bind, Option.bind_some]
  rfl

/-- Trees with the same text are the same. -/
theorem eq_of_toJson_eq {first second : Tree} (exactFirst : first.Exact) (exactSecond : second.Exact)
    (sameText : first.toJson = second.toJson) : first = second := by
  have readFirst := readJson?_toJson first exactFirst (2 * first.toJson.length)
    (max first.nesting second.nesting) [] (Nat.le_max_left _ _) (by omega) follows_nil
  have readSecond := readJson?_toJson second exactSecond (2 * first.toJson.length)
    (max first.nesting second.nesting) [] (Nat.le_max_right _ _) (by rw [sameText]; omega) follows_nil
  rw [← sameText, readFirst] at readSecond
  exact congrArg Prod.fst (Option.some.inj readSecond)

end IndexAlgebra.Tree
