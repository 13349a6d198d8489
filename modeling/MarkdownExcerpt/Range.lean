import MarkdownExcerpt.Json
import MarkdownExcerpt.Span

/-! The range of characters that a request names. -/

namespace MarkdownExcerpt

inductive Bound where
  | start | stop
  deriving DecidableEq, Repr

def Bound.name : Bound → String
  | start => "Start"
  | stop => "End"

/-- Why two values make no range. -/
inductive RangeError where
  | notInteger (bound : Bound)
  | negative (bound : Bound)
  | notIncreasing
  deriving DecidableEq, Repr

def RangeError.message : RangeError → String
  | notInteger bound => bound.name ++ " position must be an integer"
  | negative bound => bound.name ++ " position must be non-negative"
  | notIncreasing => "End position must be greater than start"

/-- A range with at least one offset in it, up to the end of the document if no end is given. -/
structure Range where
  start : Nat
  stop : Option Nat
  start_lt_stop : ∀ n ∈ stop, start < n

namespace Range

/-- A bound is an integer from zero on; a number written with a decimal point is none, and neither
is a truth value. -/
def position (bound : Bound) : Json → Except RangeError Nat
  | .int (.ofNat n) => .ok n
  | .int (.negSucc _) => .error (.negative bound)
  | _ => .error (.notInteger bound)

def ofJson (start stop : Json) : Except RangeError Range :=
  match position .start start with
  | .error error => .error error
  | .ok first =>
    match stop with
    | .null => .ok ⟨first, none, by simp⟩
    | stop =>
      match position .stop stop with
      | .error error => .error error
      | .ok last =>
        if h : first < last then .ok ⟨first, some last, by simpa using h⟩
        else .error .notIncreasing

/-- Where the range ends in a document of a length. -/
def stopWithin (range : Range) (length : Nat) : Nat :=
  match range.stop with
  | none => length
  | some stop => min stop length

theorem stopWithin_le (range : Range) (length : Nat) : range.stopWithin length ≤ length := by
  unfold stopWithin
  split
  · exact Nat.le_refl _
  · exact Nat.min_le_right _ _

end Range
end MarkdownExcerpt
