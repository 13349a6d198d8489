import MarkdownExcerpt.Decimal

/-! JSON values. Integers and numbers with a decimal point are different kinds of value, and
objects keep the order of their fields. -/

namespace MarkdownExcerpt

inductive Json where
  | null
  | bool (value : Bool)
  | int (value : Int)
  | decimal (value : Decimal)
  | str (value : String)
  | arr (items : List Json)
  | obj (fields : List (String × Json))
  deriving Repr

/-- The fields of an object or the attributes of a node, in order. -/
abbrev Fields := List (String × Json)

namespace Json

/-- The word by which messages call a kind of value. -/
def kindName : Json → String
  | null => "NoneType"
  | bool _ => "bool"
  | int _ => "int"
  | decimal _ => "float"
  | str _ => "str"
  | arr _ => "list"
  | obj _ => "dict"

/-- Null, false, a zero and every empty value count as nothing given. -/
def isVacuous : Json → Bool
  | null => true
  | bool value => !value
  | int value => value == 0
  | decimal value => value.isZero
  | str value => value.isEmpty
  | arr items => items.isEmpty
  | obj fields => fields.isEmpty

def text? : Json → Option String
  | str value => some value
  | _ => none

def ofTexts (texts : List String) : Json := .arr (texts.map .str)

end Json
end MarkdownExcerpt
