import MarkdownExcerpt.Policy
import MarkdownExcerpt.Text.Blank

/-! Pieces of text and what becomes of blank characters in them. -/

namespace MarkdownExcerpt.Text

/-- The characters from one offset up to another. -/
def piece (cs : List Char) (start stop : Nat) : List Char := (cs.drop start).take (stop - start)

/-- One space for each run of blanks between words. `pending` holds the blanks read since the last
word, which stay as they are if no word follows. -/
def normalizeAfterWord (pending : List Char) : List Char → List Char
  | [] => pending
  | c :: rest =>
    if isBlank c then normalizeAfterWord (pending ++ [c]) rest
    else if pending.isEmpty then c :: normalizeAfterWord [] rest
    else ' ' :: c :: normalizeAfterWord [] rest

/-- One space for each run of blanks between words; blank edges stay as they are. -/
def normalize : List Char → List Char
  | [] => []
  | c :: rest => if isBlank c then c :: normalize rest else c :: normalizeAfterWord [] rest

/-- Cleans a text of which the marked edges were cut. Trimming leaves edges of the text's own
alone, and normalizing leaves all edges alone. -/
def clean (policy : WhitespacePolicy) (cutStart cutEnd : Bool) (cs : List Char) : List Char :=
  match policy with
  | .trim =>
    let cs := if cutStart then trimStart cs else cs
    if cutEnd then trimEnd cs else cs
  | .normalize => normalize cs
  | .preserve => cs

theorem length_normalizeAfterWord_le (pending cs : List Char) :
    (normalizeAfterWord pending cs).length ≤ pending.length + cs.length := by
  induction cs generalizing pending with
  | nil => simp [normalizeAfterWord]
  | cons c rest ih =>
    unfold normalizeAfterWord
    split
    · have := ih (pending ++ [c])
      simp at this ⊢
      omega
    · have := ih []
      split
      · simp at this ⊢
        omega
      · have : 0 < pending.length := by cases pending <;> simp_all
        simp at *
        omega

theorem length_normalize_le (cs : List Char) : (normalize cs).length ≤ cs.length := by
  induction cs with
  | nil => simp [normalize]
  | cons c rest ih =>
    unfold normalize
    split
    · simpa using ih
    · simpa using length_normalizeAfterWord_le [] rest

theorem length_trimStart_le (cs : List Char) : (trimStart cs).length ≤ cs.length :=
  (List.dropWhile_sublist _).length_le

theorem length_trimEnd_le (cs : List Char) : (trimEnd cs).length ≤ cs.length := by
  simpa [trimEnd] using (List.dropWhile_sublist (l := cs.reverse) isBlank).length_le

/-- No policy makes a text longer. -/
theorem length_clean_le (policy : WhitespacePolicy) (cutStart cutEnd : Bool) (cs : List Char) :
    (clean policy cutStart cutEnd cs).length ≤ cs.length := by
  have hs := length_trimStart_le cs
  cases policy with
  | trim =>
    cases cutStart <;> cases cutEnd <;> simp [clean, length_trimEnd_le, hs]
    exact Nat.le_trans (length_trimEnd_le _) hs
  | normalize => exact length_normalize_le cs
  | preserve => exact Nat.le_refl _

example : normalize " a \t b\n ".toList = " a b\n ".toList := by decide

end MarkdownExcerpt.Text
