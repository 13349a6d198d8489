import Mathlib.Data.List.DropRight
import Mathlib.Data.List.Infix
import MarkdownExcerpt.Proofs.Text.Piece

/-! Blank edges of a text. A text is its leading blanks followed by the text without them, and the
text without trailing blanks followed by these; every way to clean a text but normalizing it leaves
a piece of it. -/
namespace MarkdownExcerpt

namespace Text

/-- The blanks in front of a text. -/
def leading (cs : List Char) : List Char := cs.takeWhile isBlank

/-- The blanks at the end of a text. -/
def trailing (cs : List Char) : List Char := cs.rtakeWhile isBlank

theorem leading_append_trimStart (cs : List Char) : leading cs ++ trimStart cs = cs :=
  List.takeWhile_append_dropWhile

theorem trimEnd_append_trailing (cs : List Char) : trimEnd cs ++ trailing cs = cs :=
  List.rdropWhile_append_rtakeWhile

theorem leading_isPrefix (cs : List Char) : leading cs <+: cs := ⟨_, leading_append_trimStart cs⟩

theorem trailing_isSuffix (cs : List Char) : trailing cs <:+ cs := ⟨_, trimEnd_append_trailing cs⟩

theorem trimStart_isSuffix (cs : List Char) : trimStart cs <:+ cs :=
  ⟨_, leading_append_trimStart cs⟩

theorem trimEnd_isPrefix (cs : List Char) : trimEnd cs <+: cs := ⟨_, trimEnd_append_trailing cs⟩

theorem piece_isInfix (cs : List Char) (start stop : Nat) : piece cs start stop <:+: cs :=
  (List.take_prefix _ _).isInfix.trans (List.drop_suffix _ _).isInfix

theorem piece_isInfix_piece (cs : List Char) {start first last stop : Nat} (hstart : start ≤ first)
    (hstop : last ≤ stop) : piece cs first last <:+: piece cs start stop := by
  by_cases h : first ≤ last
  · rw [← piece_append_piece cs hstart (Nat.le_trans h hstop), ← piece_append_piece cs h hstop]
    exact ⟨piece cs start first, piece cs last stop, by simp⟩
  · rw [piece_eq_nil (by omega)]
    exact List.nil_infix

theorem clean_isInfix {policy : WhitespacePolicy} (h : policy ≠ .normalize)
    (cutStart cutEnd : Bool) (cs : List Char) : clean policy cutStart cutEnd cs <:+: cs := by
  have hstart : (if cutStart then trimStart cs else cs) <:+: cs := by
    split
    · exact (trimStart_isSuffix cs).isInfix
    · exact List.infix_rfl
  cases policy with
  | trim =>
    simp only [clean]
    generalize (if cutStart then trimStart cs else cs) = front at hstart
    split
    · exact (trimEnd_isPrefix front).isInfix.trans hstart
    · exact hstart
  | normalize => exact absurd rfl h
  | preserve => exact List.infix_rfl

/-- Blanks with which a text starts are among those in front of it. -/
theorem length_le_leading {front cs : List Char} (h : front <+: cs)
    (hblank : ∀ c ∈ front, isBlank c = true) : front.length ≤ (leading cs).length := by
  obtain ⟨rest, rfl⟩ := h
  rw [leading, List.takeWhile_append_of_pos hblank, List.length_append]
  exact Nat.le_add_right _ _

/-- Blanks with which a text ends are among those at its end. -/
theorem length_le_trailing {back cs : List Char} (h : back <:+ cs)
    (hblank : ∀ c ∈ back, isBlank c = true) : back.length ≤ (trailing cs).length := by
  have hback := length_le_leading (List.reverse_prefix.mpr h) (by simpa using hblank)
  simpa [trailing, leading, List.rtakeWhile] using hback

end Text

namespace Span

variable {window inner : Span} {start : Int} {cs : List Char}

theorem shown_isInfix_shown (hstart : window.start ≤ inner.start) (hstop : inner.stop ≤ window.stop)
    (start : Int) (cs : List Char) : inner.shown start cs <:+: window.shown start cs :=
  Text.piece_isInfix_piece cs (by omega) (by omega)

lemma length_shown_eq (window : Span) (start : Int) (cs : List Char) :
    (window.shown start cs).length =
      min (window.stop - start).toNat cs.length - (window.start - start).toNat :=
  Text.length_piece _ _ _

/-- The blanks in front of what a window shows, and where the window would start without them. -/
theorem shown_leading (hstart : start ≤ window.start) (hwindow : window.start ≤ window.stop) :
    (⟨window.start, window.start + (Text.leading (window.shown start cs)).length⟩ : Span).shown
        start cs = Text.leading (window.shown start cs) ∧
      (⟨window.start + (Text.leading (window.shown start cs)).length, window.stop⟩ : Span).shown
        start cs = Text.trimStart (window.shown start cs) := by
  have hlength := (Text.leading_isPrefix (window.shown start cs)).length_le
  rw [length_shown_eq] at hlength
  generalize hcount : (Text.leading (window.shown start cs)).length = count at hlength ⊢
  have hsplit := shown_append_shown (show window.start ≤ window.start + count by omega)
    (show window.start + count ≤ window.stop by omega) start cs
  apply List.append_inj (hsplit.trans (Text.leading_append_trimStart _).symm)
  rw [hcount, length_shown_eq]
  simp only
  omega

/-- The blanks at the end of what a window shows, and where the window would stop without them. -/
theorem shown_trailing (hstop : window.stop ≤ start + cs.length)
    (hwindow : window.start ≤ window.stop) :
    (⟨window.start, window.stop - (Text.trailing (window.shown start cs)).length⟩ : Span).shown
        start cs = Text.trimEnd (window.shown start cs) ∧
      (⟨window.stop - (Text.trailing (window.shown start cs)).length, window.stop⟩ : Span).shown
        start cs = Text.trailing (window.shown start cs) := by
  have hlength := (Text.trailing_isSuffix (window.shown start cs)).length_le
  rw [length_shown_eq] at hlength
  generalize hcount : (Text.trailing (window.shown start cs)).length = count at hlength ⊢
  have hsplit := shown_append_shown (show window.start ≤ window.stop - count by omega)
    (show window.stop - count ≤ window.stop by omega) start cs
  apply List.append_inj' (hsplit.trans (Text.trimEnd_append_trailing _).symm)
  rw [hcount, length_shown_eq]
  simp only
  omega

/-- Blanks that are in front in a window are so in a narrower window too, as far as it shows
them. -/
theorem le_leading_shown (hfirst : start ≤ window.start) (hstart : window.start ≤ inner.start)
    (hinner : inner.start ≤ inner.stop) (hstop : inner.stop ≤ window.stop) :
    min inner.stop (window.start + (Text.leading (window.shown start cs)).length) ≤
      inner.start + (Text.leading (inner.shown start cs)).length := by
  have hlength := (Text.leading_isPrefix (window.shown start cs)).length_le
  rw [length_shown_eq] at hlength
  have hblank := (@shown_leading window start cs hfirst (by omega)).1
  have hall : ∀ c ∈ Text.leading (window.shown start cs), Text.isBlank c = true :=
    fun c hc => List.mem_takeWhile_imp hc
  rw [← hblank] at hall
  generalize (Text.leading (window.shown start cs)).length = count at hlength hall ⊢
  by_cases hbefore : window.start + count ≤ inner.start
  · omega
  · obtain ⟨mid, hmid⟩ : ∃ mid, mid = min inner.stop (window.start + count) := ⟨_, rfl⟩
    have hsplit := @shown_append_shown inner.start mid inner.stop (by omega) (by omega) start cs
    have hinside := @shown_isInfix_shown ⟨window.start, window.start + count⟩ ⟨inner.start, mid⟩
      hstart (by simp only; omega) start cs
    have hle : ((⟨inner.start, mid⟩ : Span).shown start cs).length ≤
        (Text.leading (inner.shown start cs)).length :=
      Text.length_le_leading ⟨_, hsplit⟩ fun c hc => hall c (hinside.mem hc)
    rw [length_shown_eq] at hle
    simp only at hle
    omega

/-- Blanks that are at the end of a window are so in a narrower window too, as far as it shows
them. -/
theorem trailing_shown_le (hlast : window.stop ≤ start + cs.length)
    (hstart : window.start ≤ inner.start) (hinner : inner.start ≤ inner.stop)
    (hstop : inner.stop ≤ window.stop)
    (hfirst : start ≤ window.stop - (Text.trailing (window.shown start cs)).length) :
    inner.stop - (Text.trailing (inner.shown start cs)).length ≤
      max (window.stop - (Text.trailing (window.shown start cs)).length) inner.start := by
  have hblank := (@shown_trailing window start cs hlast (by omega)).2
  have hall : ∀ c ∈ Text.trailing (window.shown start cs), Text.isBlank c = true :=
    fun c hc => List.mem_rtakeWhile_imp hc
  rw [← hblank] at hall
  generalize (Text.trailing (window.shown start cs)).length = count at hfirst hall ⊢
  by_cases hafter : inner.stop ≤ window.stop - count
  · omega
  · obtain ⟨mid, hmid⟩ : ∃ mid, mid = max (window.stop - count) inner.start := ⟨_, rfl⟩
    have hsplit := @shown_append_shown inner.start mid inner.stop (by omega) (by omega) start cs
    have hinside := @shown_isInfix_shown ⟨window.stop - count, window.stop⟩ ⟨mid, inner.stop⟩
      (by simp only; omega) hstop start cs
    have hle : ((⟨mid, inner.stop⟩ : Span).shown start cs).length ≤
        (Text.trailing (inner.shown start cs)).length :=
      Text.length_le_trailing ⟨_, hsplit⟩ fun c hc => hall c (hinside.mem hc)
    rw [length_shown_eq] at hle
    simp only at hle
    omega

end Span
end MarkdownExcerpt
