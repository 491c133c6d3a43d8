/-
This file holds the trees that data is exchanged in: scalars, lists, and records of named
fields. It also says how a record and a tagged value are taken apart.
-/
import IndexAlgebra.Binary64
import IndexAlgebra.Word

namespace IndexAlgebra

/-- A tree of data. -/
inductive Tree where
  | null
  | bool (value : Bool)
  | int (value : Int)
  | float (value : Binary64)
  | text (value : String)
  | list (items : List Tree)
  | record (fields : List (String × Tree))
  deriving Inhabited, Repr

namespace Tree

mutual

/-- The number of trees nested in each other along the deepest branch. -/
def depth : Tree → Nat
  | list items => depthList items + 1
  | record fields => depthFields fields + 1
  | _ => 1

/-- The depth of the deepest item. -/
def depthList : List Tree → Nat
  | [] => 0
  | item :: rest => max item.depth (depthList rest)

/-- The depth of the deepest field. -/
def depthFields : List (String × Tree) → Nat
  | [] => 0
  | (_, item) :: rest => max item.depth (depthFields rest)

end

/-- The field with the given name. -/
def field? (tree : Tree) (name : String) : Option Tree :=
  match tree with
  | record fields => fields.lookup name
  | _ => none

/-- The fields with the given names, in the order of the names. Other fields are passed over. A
list with one item for each name stands for the record with those fields. -/
def fields? (names : List String) : Tree → Option (List Tree)
  | record fields => names.mapM fun name => fields.lookup name
  | list items => if items.length = names.length then some items else none
  | _ => none

/-- The fields with the given names of a tree that has to be a record. -/
def recordFields? (names : List String) (tree : Tree) : Option (List Tree) :=
  names.mapM tree.field?

/-- The tag of a value and what it carries. A tag that carries nothing may be written alone. -/
def tagged? : Tree → Option (String × Tree)
  | text tag => some (tag, null)
  | record [(tag, content)] => some (tag, content)
  | _ => none

/-- The tag of a value that carries nothing. -/
def tag? (tree : Tree) : Option String :=
  match tree.tagged? with
  | some (tag, null) => some tag
  | _ => none

/-- The items of a list. -/
def items? : Tree → Option (List Tree)
  | list items => some items
  | _ => none

def text? : Tree → Option String
  | text value => some value
  | _ => none

def bool? : Tree → Option Bool
  | bool value => some value
  | _ => none

/-- The integer, if it is a word. -/
def word? : Tree → Option Int
  | int value => Word.ofInt? value
  | _ => none

/-- The integer, if it lies between zero and a limit. -/
def natUpTo? (limit : Nat) : Tree → Option Nat
  | int value => if 0 ≤ value ∧ value ≤ limit then some value.toNat else none
  | _ => none

/-- The floating-point number, or the one nearest to an integer. -/
def float? : Tree → Option Binary64
  | float value => some value
  | int value => some (Binary64.ofInt value)
  | _ => none

end Tree

end IndexAlgebra
