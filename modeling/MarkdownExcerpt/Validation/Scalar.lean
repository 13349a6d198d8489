import MarkdownExcerpt.Text.Integer
import MarkdownExcerpt.Validation

/-! Single values, read with some freedom: truth values also from numbers and words, integers also
from truth values, whole decimals and text. -/

namespace MarkdownExcerpt.Validated

def falseWords : List String := ["0", "off", "f", "false", "n", "no"]

def trueWords : List String := ["1", "on", "t", "true", "y", "yes"]

/-- Letter case does not matter, but blanks do. -/
def boolOfText? (text : String) : Option Bool :=
  let word := String.ofList (text.toList.map Char.toLower)
  if word ∈ falseWords then some false else if word ∈ trueWords then some true else none

/-- Whole decimals of this size or more are not read as integers. -/
def decimalLimit : Nat := Nat.pow 2 63

/-- The integer that a decimal stands for. -/
def wholeDecimal (value : Decimal) : Except Cause Int :=
  match value.toInt? with
  | none => .error .fractionalInteger
  | some whole => if whole.natAbs < decimalLimit then .ok whole else .error .oversizedInteger

/-- Zero is false and one is true. Another integer cannot be read, and one that needs more than 64
bits has the wrong kind. -/
def boolOfInt (value : Int) : Validated Bool :=
  if value = 0 then valid false
  else if value = 1 then valid true
  else if -decimalLimit ≤ value ∧ value < decimalLimit then refuse .unreadableBool
  else refuse .notBool

def bool : Json → Validated Bool
  | .bool value => valid value
  | .int value => boolOfInt value
  | .decimal value =>
    match wholeDecimal value with
    | .ok whole => boolOfInt whole
    | .error _ => refuse .notBool
  | .str text =>
    match boolOfText? text with
    | some value => valid value
    | none => refuse .unreadableBool
  | _ => refuse .notBool

def integer : Json → Validated Int
  | .bool value => valid (if value then 1 else 0)
  | .int value => valid value
  | .decimal value => ofExcept (wholeDecimal value)
  | .str text =>
    match Text.integer text with
    | .ok value => valid value
    | .error .unreadable => refuse .unreadableInteger
    | .error .oversized => refuse .oversizedInteger
  | _ => refuse .notInteger

/-- An integer that must not be negative. -/
def naturalOfInt : Int → Validated Nat
  | .ofNat n => valid n
  | .negSucc _ => refuse .negative

def natural (value : Json) : Validated Nat :=
  match integer value with
  | valid value => naturalOfInt value
  | invalid issues => invalid issues

def text : Json → Validated String
  | .str value => valid value
  | _ => refuse .notText

/-- Reads the items from a position on; every item that is refused is listed. -/
def textsFrom (index : Nat) : List Json → Validated (List String)
  | [] => valid []
  | item :: rest => List.cons <$> (text item).within (.item index) <*> textsFrom (index + 1) rest

def texts : Json → Validated (List String)
  | .arr items => textsFrom 0 items
  | _ => refuse .notList

theorem natural_int (n : Nat) : natural (.int n) = valid n := rfl

theorem textsFrom_ofTexts (index : Nat) (values : List String) :
    textsFrom index (values.map .str) = valid values := by
  induction values generalizing index with
  | nil => rfl
  | cons value rest ih => simp only [List.map_cons, textsFrom, ih]; rfl

theorem texts_ofTexts (values : List String) : texts (Json.ofTexts values) = valid values :=
  textsFrom_ofTexts 0 values

end MarkdownExcerpt.Validated
