/-! Numbers with a decimal point. They count as binary numbers of 53 digits, so the integer that a
large one stands for need not be the one that its decimal digits spell. -/

namespace MarkdownExcerpt

/-- A number written with a decimal point: `digits / 10 ^ places`, with the sign kept apart so
that negative zero stays what it is. -/
structure Decimal where
  negative : Bool
  digits : Nat
  places : Nat
  deriving DecidableEq, Repr

namespace Decimal

/-- A quotient to the nearest integer. Halves go to the even neighbour. -/
def nearestQuotient (number divisor : Nat) : Nat :=
  let below := number / divisor
  let twice := 2 * (number % divisor)
  if divisor < twice ∨ twice = divisor ∧ below % 2 = 1 then below + 1 else below

/-- What the digits are divided by. -/
def scale (d : Decimal) : Nat := Nat.pow 10 d.places

/-- The smallest binary number above zero goes so often into one. -/
def unit : Nat := Nat.pow 2 1074

/-- How often the smallest binary number goes into the size of this one, when no more than 53 binary
digits are kept. -/
def units (d : Decimal) : Nat :=
  let exact := d.digits * unit
  let step := Nat.pow 2 ((exact / d.scale).log2 - 52)
  nearestQuotient exact (d.scale * step) * step

def isZero (d : Decimal) : Bool := d.units == 0

/-- The number as an integer, if it is one. -/
def toInt? (d : Decimal) : Option Int :=
  if d.units % unit = 0 then
    let size : Int := (d.units / unit : Nat)
    some (if d.negative then -size else size)
  else none

/-- The nearest integer is no more than a half away. -/
theorem nearestQuotient_near (number : Nat) {divisor : Nat} (h : 0 < divisor) :
    2 * number ≤ 2 * (nearestQuotient number divisor * divisor) + divisor ∧
      2 * (nearestQuotient number divisor * divisor) ≤ 2 * number + divisor := by
  have whole := Nat.div_add_mod' number divisor
  have rest := Nat.mod_lt number h
  have above := Nat.add_mul (number / divisor) 1 divisor
  simp only [nearestQuotient]
  split <;> omega

/-- Between two integers that are equally near the even one is taken. -/
theorem nearestQuotient_half {number divisor : Nat} (h : 2 * (number % divisor) = divisor) :
    nearestQuotient number divisor % 2 = 0 := by
  simp only [nearestQuotient, h, Nat.lt_irrefl, true_and, false_or]
  generalize number / divisor = below
  split <;> omega

example : toInt? ⟨true, 30, 1⟩ = some (-3) := by decide +kernel

example : toInt? ⟨false, 15, 1⟩ = none := by decide +kernel

example : toInt? ⟨false, 90071992547409930, 1⟩ = some 9007199254740992 := by decide +kernel

end Decimal
end MarkdownExcerpt
