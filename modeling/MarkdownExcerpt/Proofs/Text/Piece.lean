import Mathlib.Tactic.Lemma
import MarkdownExcerpt.Span
import MarkdownExcerpt.Text.Piece

/-! Pieces of text under concatenation and under further cutting, and the characters that a window
shows of a text that starts at an offset. -/
namespace MarkdownExcerpt

namespace Text

theorem length_piece (cs : List Char) (start stop : Nat) :
    (piece cs start stop).length = min stop cs.length - start := by
  rw [piece, List.length_take, List.length_drop]
  omega

theorem piece_append (first second : List Char) (start stop : Nat) :
    piece (first ++ second) start stop =
      piece first start stop ++ piece second (start - first.length) (stop - first.length) := by
  rw [piece, piece, piece, List.drop_append, List.take_append, List.length_drop]
  congr 2
  omega

theorem piece_eq_nil {cs : List Char} {start stop : Nat} (h : min stop cs.length ≤ start) :
    piece cs start stop = [] := by
  apply List.eq_nil_of_length_eq_zero
  rw [length_piece]
  omega

theorem piece_eq_self {cs : List Char} {stop : Nat} (h : cs.length ≤ stop) :
    piece cs 0 stop = cs := by
  simp [piece, List.take_of_length_le h]

/-- A piece of a piece is a piece of the whole text. -/
theorem piece_piece (cs : List Char) (start stop first last : Nat) (h : start + last ≤ stop) :
    piece (piece cs start stop) first last = piece cs (start + first) (start + last) := by
  simp only [piece, List.drop_take, List.drop_drop, List.take_take]
  congr 1
  omega

/-- Two pieces side by side are one. -/
theorem piece_append_piece (cs : List Char) {start mid stop : Nat} (hstart : start ≤ mid)
    (hstop : mid ≤ stop) : piece cs start mid ++ piece cs mid stop = piece cs start stop := by
  rw [piece, piece, piece, show stop - start = (mid - start) + (stop - mid) by omega,
    List.take_add, List.drop_drop, show start + (mid - start) = mid by omega]

/-- Beyond the end of a text there is nothing more to take. -/
theorem piece_min_length (cs : List Char) (start stop : Nat) :
    piece cs start (min stop cs.length) = piece cs start stop := by
  rw [piece, piece, List.take_eq_take_iff, List.length_drop]
  omega

end Text

namespace Span

/-- The characters in the window of a text that starts at an offset. -/
def shown (window : Span) (start : Int) (cs : List Char) : List Char :=
  Text.piece cs (window.start - start).toNat (window.stop - start).toNat

variable {window : Span} {start : Int} {cs : List Char}

/-- Of a text that starts at zero a window shows the piece between its bounds. -/
theorem shown_zero (first last : Nat) (cs : List Char) :
    (⟨first, last⟩ : Span).shown 0 cs = Text.piece cs first last := by
  simp [shown]

@[simp] theorem shown_nil (window : Span) (start : Int) : window.shown start [] = [] := by
  simp [shown, Text.piece]

theorem shown_append (window : Span) (start : Int) (first second : List Char) :
    window.shown start (first ++ second) =
      window.shown start first ++ window.shown (start + first.length) second := by
  rw [shown, Text.piece_append, shown, shown]
  congr 2 <;> omega

theorem shown_of_misses (h : (ofLength start cs.length).misses window = true) :
    window.shown start cs = [] := by
  rw [misses_iff, stop_ofLength, start_ofLength] at h
  apply Text.piece_eq_nil
  omega

theorem shown_of_isWithin (h : (ofLength start cs.length).isWithin window = true) :
    window.shown start cs = cs := by
  rw [isWithin_iff, stop_ofLength, start_ofLength] at h
  rw [shown, show (window.start - start).toNat = 0 by omega]
  exact Text.piece_eq_self (by omega)

/-- Characters of a text are shown exactly if the window lies over them. -/
theorem shown_ne_nil (hpos : 0 < cs.length) (hwindow : window.start < window.stop)
    (h : (ofLength start cs.length).misses window = false) : window.shown start cs ≠ [] := by
  rw [misses_eq_false_iff, stop_ofLength, start_ofLength] at h
  rw [← List.length_pos_iff, shown, Text.length_piece]
  omega

/-- Two windows side by side show what the window over both of them shows. -/
theorem shown_append_shown {first mid last : Int} (hfirst : first ≤ mid) (hlast : mid ≤ last)
    (start : Int) (cs : List Char) :
    (⟨first, mid⟩ : Span).shown start cs ++ (⟨mid, last⟩ : Span).shown start cs =
      (⟨first, last⟩ : Span).shown start cs :=
  Text.piece_append_piece cs (by simp only; omega) (by simp only; omega)

end Span
end MarkdownExcerpt
