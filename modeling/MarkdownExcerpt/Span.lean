/-! Half-open ranges of character offsets. -/

namespace MarkdownExcerpt

/-- The characters from `start` up to `stop`. -/
structure Span where
  start : Int
  stop : Int
  deriving DecidableEq, Repr

namespace Span

/-- The span of so many characters from an offset on; it runs backwards if they are fewer than
none. -/
def ofLength (start length : Int) : Span := ⟨start, start + length⟩

/-- No character of the span is in the window. An empty span on an edge of the window is outside
it too. -/
def misses (span window : Span) : Bool :=
  span.stop ≤ window.start || window.stop ≤ span.start

def isWithin (span window : Span) : Bool :=
  window.start ≤ span.start && span.stop ≤ window.stop

/-- The span moved by an offset. -/
def shift (span : Span) (offset : Int) : Span := ⟨span.start + offset, span.stop + offset⟩

@[simp] theorem start_ofLength (start length : Int) : (ofLength start length).start = start := rfl

@[simp] theorem stop_ofLength (start length : Int) :
    (ofLength start length).stop = start + length := rfl

theorem misses_iff {span window : Span} :
    span.misses window = true ↔ span.stop ≤ window.start ∨ window.stop ≤ span.start := by
  simp [misses]

theorem misses_eq_false_iff {span window : Span} :
    span.misses window = false ↔ window.start < span.stop ∧ span.start < window.stop := by
  simp [misses]

theorem isWithin_iff {span window : Span} :
    span.isWithin window = true ↔ window.start ≤ span.start ∧ span.stop ≤ window.stop := by
  simp [isWithin]

theorem isWithin_eq_false_iff {span window : Span} :
    span.isWithin window = false ↔ span.start < window.start ∨ window.stop < span.stop := by
  simp only [← Bool.not_eq_true, isWithin_iff]
  omega

example : misses ⟨3, 3⟩ ⟨0, 3⟩ ∧ ¬misses ⟨3, 3⟩ ⟨0, 4⟩ := by decide

end Span
end MarkdownExcerpt
