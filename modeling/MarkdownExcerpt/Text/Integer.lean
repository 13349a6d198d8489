import MarkdownExcerpt.Text.Blank

/-! Integers written as text. A plain numeral is digits without a zero in front, and a minus sign
may stand before it. Around it a text has some freedom: white space on its edges does not count, a
plus sign may stand in front, zeros may lead, single underscores may stand between digits, and a
point with zeros may follow. -/

namespace MarkdownExcerpt.Text

/-- Why a text gives no integer. -/
inductive IntegerError where
  | unreadable
  | oversized
  deriving DecidableEq, Repr

/-- The most digits that a plain numeral may have. -/
def maxDigits : Nat := 4300

def digitsValue (digits : List Char) : Nat :=
  digits.foldl (fun value c => 10 * value + (c.toNat - '0'.toNat)) 0

/-- The number of a plain numeral without a sign. -/
def natural? (cs : List Char) : Option Nat :=
  if cs ≠ [] ∧ cs.length ≤ maxDigits ∧ cs.all Char.isDigit ∧
      (cs.head? = some '0' → cs = ['0']) then
    some (digitsValue cs)
  else none

/-- The integer of a plain numeral. -/
def numeral? : List Char → Option Int
  | '-' :: size => (natural? size).map fun n => -(n : Int)
  | size => (natural? size).map fun n => (n : Int)

/-- A numeral with too many digits stands right at the start, whatever follows it. -/
def startsOversized (cs : List Char) : Bool :=
  let size := if cs.head? = some '-' then cs.drop 1 else cs
  let digits := size.takeWhile Char.isDigit
  digits.head? ≠ some '0' && maxDigits < digits.length

/-- Takes off a point and the zeros behind it, if there is at least one and nothing else. -/
def withoutZeroPlaces (cs : List Char) : List Char :=
  match cs.dropWhile (· ≠ '.') with
  | _ :: '0' :: places => if places.all (· = '0') then cs.takeWhile (· ≠ '.') else cs
  | _ => cs

/-- Takes off leading zeros with the underscores behind them, but for one zero where nothing else is
left. What comes after the zeros is not looked at, so it may have a sign again. -/
def withoutLeadingZeros? (cs : List Char) : Option (List Char) :=
  match cs with
  | '0' :: rest =>
    match rest.dropWhile fun c => c = '0' || c = '_' with
    | [] => if cs.getLast? = some '0' then some ['0'] else none
    | others => some others
  | c :: _ => if c.isDigit then some cs else none
  | [] => none

/-- Every underscore has a character other than an underscore behind it. -/
def spacesUnderscores : List Char → Bool
  | [] => true
  | '_' :: rest => rest.head?.any (· ≠ '_') && spacesUnderscores rest
  | _ :: rest => spacesUnderscores rest

/-- The plain form of an unsigned numeral. -/
def plain? (cs : List Char) : Option (List Char) :=
  (withoutLeadingZeros? cs).bind fun cs =>
    if spacesUnderscores cs then some (cs.filter (· ≠ '_')) else none

def trimWhiteSpace (cs : List Char) : List Char :=
  ((cs.dropWhile isWhiteSpace).reverse.dropWhile isWhiteSpace).reverse

/-- The integer that a text writes. Only a text that starts with a numeral is ever oversized; one
that is too long in plain form is unreadable. -/
def integer (text : String) : Except IntegerError Int :=
  if startsOversized text.toList then .error .oversized
  else
    let plain :=
      match withoutZeroPlaces (trimWhiteSpace text.toList) with
      | '-' :: size => (plain? size).map ('-' :: ·)
      | '+' :: size => plain? size
      | size => plain? size
    match plain.bind numeral? with
    | some value => .ok value
    | none => .error .unreadable

example : (integer " -1_000.00\n").toOption = some (-1000) ∧
    (integer "+0_07").toOption = some 7 ∧ (integer "0-_1").toOption = some (-1) := by decide

example : ["", "+", "1__0", "1.5", "1.", ".0", "_1", "0_", "-0-1", "0-01", "+-1"].all fun text =>
    integer text matches .error .unreadable := by decide

end MarkdownExcerpt.Text
