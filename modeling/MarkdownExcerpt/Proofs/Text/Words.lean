import MarkdownExcerpt.Proofs.Text.Trim

/-! The words of a text, and normalizing told by them: the blanks at both edges stay, and whatever
blanks stand between two words become one space. Trimming takes off the blanks at an edge, so it
does not matter which of the two is done first. -/
namespace MarkdownExcerpt.Text

def IsWord (word : List Char) : Prop := word ≠ [] ∧ ∀ c ∈ word, isBlank c = false

def IsGap (gap : List Char) : Prop := gap ≠ [] ∧ ∀ c ∈ gap, isBlank c = true

instance (word : List Char) : Decidable (IsWord word) :=
  decidable_of_iff (word ≠ [] ∧ word.all (fun c => !isBlank c) = true) (by simp [IsWord])

instance (gap : List Char) : Decidable (IsGap gap) :=
  decidable_of_iff (gap ≠ [] ∧ gap.all isBlank = true) (by simp [IsGap])

/-- A text from its first word to the end of its last one. Since there is a gap between any two
words, none of them could be longer. -/
inductive Spaced : List (List Char) → List Char → Prop
  | last {word : List Char} (hword : IsWord word) : Spaced [word] word
  | next {word gap text : List Char} {words : List (List Char)} (hword : IsWord word)
      (hgap : IsGap gap) (htext : Spaced words text) : Spaced (word :: words) (word ++ gap ++ text)

/-- The words of a text in order. All of the text but the blanks at its edges is made of them and
the gaps between them. -/
def AreWords (cs : List Char) (words : List (List Char)) : Prop :=
  ∃ body, Spaced words body ∧ leading cs ++ body ++ trailing cs = cs

variable {front body back : List Char} {words : List (List Char)}

namespace IsWord

variable {word : List Char}

lemma exists_head (h : IsWord word) : ∃ c rest, word = c :: rest ∧ isBlank c = false := by
  obtain ⟨c, rest, rfl⟩ := List.exists_cons_of_ne_nil h.1
  exact ⟨c, rest, rfl, h.2 c (by simp)⟩

lemma cons (h : IsWord word) {c : Char} (hc : isBlank c = false) : IsWord (c :: word) :=
  ⟨List.cons_ne_nil _ _, List.forall_mem_cons.mpr ⟨hc, h.2⟩⟩

end IsWord

namespace Spaced

lemma words_ne_nil (h : Spaced words body) : words ≠ [] := by
  cases h <;> simp

lemma exists_head (h : Spaced words body) : ∃ c rest, body = c :: rest ∧ isBlank c = false := by
  cases h with
  | last hword => exact hword.exists_head
  | next hword hgap htext =>
    obtain ⟨c, rest, rfl, hc⟩ := hword.exists_head
    exact ⟨c, _, rfl, hc⟩

lemma exists_last (h : Spaced words body) : ∃ init c, body = init ++ [c] ∧ isBlank c = false := by
  induction h with
  | @last word hword =>
    refine ⟨word.dropLast, word.getLast hword.1, (List.dropLast_append_getLast hword.1).symm, ?_⟩
    exact hword.2 _ (List.getLast_mem hword.1)
  | @next word gap text _ _ _ _ ih =>
    obtain ⟨init, c, rfl, hc⟩ := ih
    exact ⟨word ++ gap ++ init, c, by simp, hc⟩

/-- A character in front of the first word belongs to it. -/
lemma exists_cons (h : Spaced words body) {c : Char} (hc : isBlank c = false) :
    ∃ longer, Spaced longer (c :: body) := by
  cases h with
  | last hword => exact ⟨_, last (hword.cons hc)⟩
  | next hword hgap htext => exact ⟨_, next (hword.cons hc) hgap htext⟩

/-- The same words with one space between two of them. -/
lemma intercalate (h : Spaced words body) : Spaced words ([' '].intercalate words) := by
  induction h with
  | last hword => simpa using last hword
  | @next word gap text words hword hgap htext ih =>
    obtain ⟨second, rest, rfl⟩ := List.exists_cons_of_ne_nil htext.words_ne_nil
    rw [List.intercalate_cons_cons]
    exact next hword (by decide) ih

end Spaced

lemma normalizeAfterWord_append_of_word {word : List Char} (h : ∀ c ∈ word, isBlank c = false)
    (rest : List Char) :
    normalizeAfterWord [] (word ++ rest) = word ++ normalizeAfterWord [] rest := by
  induction word with
  | nil => rfl
  | cons c word ih =>
    obtain ⟨hc, hword⟩ := List.forall_mem_cons.mp h
    simp [normalizeAfterWord, hc, ih hword]

/-- Blanks after a word are put aside until it is known what follows. -/
lemma normalizeAfterWord_append_of_gap {gap : List Char} (h : ∀ c ∈ gap, isBlank c = true)
    (pending rest : List Char) :
    normalizeAfterWord pending (gap ++ rest) = normalizeAfterWord (pending ++ gap) rest := by
  induction gap generalizing pending with
  | nil => simp
  | cons c gap ih =>
    obtain ⟨hc, hgap⟩ := List.forall_mem_cons.mp h
    simp [normalizeAfterWord, hc, ih hgap]

/-- If another word follows, one space takes their place. -/
lemma normalizeAfterWord_of_head {gap : List Char} (hgap : gap ≠ []) {c : Char}
    (hc : isBlank c = false) (rest : List Char) :
    normalizeAfterWord gap (c :: rest) = ' ' :: normalizeAfterWord [] (c :: rest) := by
  simp [normalizeAfterWord, hc, hgap]

lemma normalizeAfterWord_blank (hback : ∀ c ∈ back, isBlank c = true) :
    normalizeAfterWord [] back = back := by
  simpa [normalizeAfterWord] using normalizeAfterWord_append_of_gap hback [] []

lemma normalizeAfterWord_of_spaced (h : Spaced words body) (hback : ∀ c ∈ back, isBlank c = true) :
    normalizeAfterWord [] (body ++ back) = [' '].intercalate words ++ back := by
  induction h with
  | last hword =>
    rw [normalizeAfterWord_append_of_word hword.2, normalizeAfterWord_blank hback,
      List.intercalate_singleton]
  | @next word gap text words hword hgap htext ih =>
    obtain ⟨second, others, rfl⟩ := List.exists_cons_of_ne_nil htext.words_ne_nil
    obtain ⟨c, rest, rfl, hc⟩ := htext.exists_head
    rw [List.append_assoc, List.append_assoc, normalizeAfterWord_append_of_word hword.2,
      normalizeAfterWord_append_of_gap hgap.2, List.nil_append, List.cons_append,
      normalizeAfterWord_of_head hgap.1 hc, ← List.cons_append, ih, List.intercalate_cons_cons]
    simp

lemma normalize_append_of_blank (hfront : ∀ c ∈ front, isBlank c = true) (rest : List Char) :
    normalize (front ++ rest) = front ++ normalize rest := by
  induction front with
  | nil => rfl
  | cons c front ih =>
    obtain ⟨hc, hfront⟩ := List.forall_mem_cons.mp hfront
    simp [normalize, hc, ih hfront]

/-- A text without words stays as it is. -/
lemma normalize_of_blank {cs : List Char} (h : ∀ c ∈ cs, isBlank c = true) : normalize cs = cs := by
  simpa [normalize] using normalize_append_of_blank h []

/-- Spaced words between blanks. -/
structure Framed (front : List Char) (words : List (List Char)) (body back : List Char) : Prop where
  front_blank : ∀ c ∈ front, isBlank c = true
  spaced : Spaced words body
  back_blank : ∀ c ∈ back, isBlank c = true

namespace Framed

lemma normalize_eq (h : Framed front words body back) :
    normalize (front ++ body ++ back) = front ++ [' '].intercalate words ++ back := by
  obtain ⟨c, rest, rfl, hc⟩ := h.spaced.exists_head
  have hafter := normalizeAfterWord_of_spaced h.spaced h.back_blank
  rw [List.append_assoc, normalize_append_of_blank h.front_blank, List.append_assoc, ← hafter]
  simp [normalize, normalizeAfterWord, hc]

/-- Normalized words are words between the same blanks. -/
lemma intercalate (h : Framed front words body back) :
    Framed front words ([' '].intercalate words) back :=
  ⟨h.front_blank, h.spaced.intercalate, h.back_blank⟩

lemma trimStart_eq (h : Framed front words body back) :
    trimStart (front ++ body ++ back) = body ++ back := by
  obtain ⟨c, rest, rfl, hc⟩ := h.spaced.exists_head
  rw [trimStart, List.append_assoc, List.dropWhile_append_of_pos h.front_blank]
  simp [hc]

lemma trimEnd_eq (h : Framed front words body back) :
    trimEnd (front ++ body ++ back) = front ++ body := by
  obtain ⟨init, c, rfl, hc⟩ := h.spaced.exists_last
  have hback : ∀ c ∈ back.reverse, isBlank c = true := by simpa using h.back_blank
  rw [trimEnd, List.reverse_append, List.dropWhile_append_of_pos hback]
  simp [hc]

lemma leading_eq (h : Framed front words body back) : leading (front ++ body ++ back) = front := by
  have hsplit := leading_append_trimStart (front ++ body ++ back)
  rw [h.trimStart_eq, List.append_assoc front] at hsplit
  simpa only [List.append_assoc] using List.append_cancel_right hsplit

lemma trailing_eq (h : Framed front words body back) :
    trailing (front ++ body ++ back) = back := by
  have hsplit := trimEnd_append_trailing (front ++ body ++ back)
  rw [h.trimEnd_eq] at hsplit
  exact List.append_cancel_left hsplit

lemma areWords (h : Framed front words body back) : AreWords (front ++ body ++ back) words :=
  ⟨body, h.spaced, by rw [h.leading_eq, h.trailing_eq]⟩

/-- The blanks that are left at the edges are blanks. -/
lemma trimmed (h : Framed front words body back) (cutStart cutEnd : Bool) :
    Framed (if cutStart then [] else front) words body (if cutEnd then [] else back) := by
  refine ⟨?_, h.spaced, ?_⟩
  · split
    · simp
    · exact h.front_blank
  · split
    · simp
    · exact h.back_blank

lemma clean_trim (h : Framed front words body back) (cutStart cutEnd : Bool) :
    clean .trim cutStart cutEnd (front ++ body ++ back) =
      (if cutStart then [] else front) ++ body ++ (if cutEnd then [] else back) := by
  have hstart : (if cutStart then trimStart (front ++ body ++ back) else front ++ body ++ back) =
      (if cutStart then [] else front) ++ body ++ back := by
    rw [h.trimStart_eq]
    cases cutStart <;> rfl
  have hend := (h.trimmed cutStart false).trimEnd_eq
  simp only [Bool.false_eq_true, if_false] at hend
  simp only [clean, hstart, hend]
  cases cutEnd <;> simp

end Framed

/-- Unless all of it is blank, a text is words between blanks. -/
lemma exists_framed (cs : List Char) :
    (∀ c ∈ cs, isBlank c = true) ∨
      ∃ front words body back, Framed front words body back ∧ front ++ body ++ back = cs := by
  induction cs with
  | nil => exact .inl (by simp)
  | cons c rest ih =>
    cases hc : isBlank c with
    | true =>
      rcases ih with hrest | ⟨front, words, body, back, h, rfl⟩
      · exact .inl (List.forall_mem_cons.mpr ⟨hc, hrest⟩)
      · have hfront : ∀ d ∈ c :: front, isBlank d = true :=
          List.forall_mem_cons.mpr ⟨hc, h.front_blank⟩
        exact .inr ⟨c :: front, words, body, back, ⟨hfront, h.spaced, h.back_blank⟩, rfl⟩
    | false =>
      have hword : IsWord [c] := ⟨by simp, by simpa using hc⟩
      rcases ih with hrest | ⟨front, words, body, back, h, rfl⟩
      · exact .inr ⟨[], [[c]], [c], rest, ⟨by simp, .last hword, hrest⟩, rfl⟩
      -- The character goes with the word behind it, unless there are blanks in between.
      · cases front with
        | nil =>
          obtain ⟨longer, hspaced⟩ := h.spaced.exists_cons hc
          exact .inr ⟨[], longer, c :: body, back, ⟨by simp, hspaced, h.back_blank⟩, rfl⟩
        | cons blank front =>
          have hspaced := Spaced.next hword ⟨by simp, h.front_blank⟩ h.spaced
          exact .inr ⟨[], _, _, back, ⟨by simp, hspaced, h.back_blank⟩, by simp⟩

/-- The blanks at the edges are known, so the words are framed by these only. -/
lemma framed_of_areWords {cs : List Char} (h : AreWords cs words) :
    ∃ body, Framed (leading cs) words body (trailing cs) ∧
      leading cs ++ body ++ trailing cs = cs := by
  obtain ⟨body, hspaced, hcs⟩ := h
  exact ⟨body, ⟨fun _ hc => List.mem_takeWhile_imp hc, hspaced,
    fun _ hc => List.mem_rtakeWhile_imp hc⟩, hcs⟩

/-- A text has words if it has a character that is not blank. -/
lemma exists_areWords_iff (cs : List Char) :
    (∃ words, AreWords cs words) ↔ ∃ c ∈ cs, isBlank c = false := by
  constructor
  · rintro ⟨words, body, hspaced, hcs⟩
    obtain ⟨c, rest, rfl, hc⟩ := hspaced.exists_head
    exact ⟨c, hcs ▸ by simp, hc⟩
  · rintro ⟨c, hm, hc⟩
    rcases exists_framed cs with hblank | ⟨front, words, body, back, h, rfl⟩
    · rw [hblank c hm] at hc
      exact Bool.noConfusion hc
    · exact ⟨words, h.areWords⟩

lemma normalize_normalize (cs : List Char) : normalize (normalize cs) = normalize cs := by
  rcases exists_framed cs with hblank | ⟨front, words, body, back, h, rfl⟩
  · rw [normalize_of_blank hblank, normalize_of_blank hblank]
  · rw [h.normalize_eq, h.intercalate.normalize_eq]

lemma normalize_eq_nil_iff (cs : List Char) : normalize cs = [] ↔ cs = [] := by
  cases cs with
  | nil => simp [normalize]
  | cons c rest =>
    unfold normalize
    split <;> simp

/-- Trimming may come first or last: normalizing leaves all blanks at the edges alone. -/
lemma normalize_clean_trim (cutStart cutEnd : Bool) (cs : List Char) :
    normalize (clean .trim cutStart cutEnd cs) = clean .trim cutStart cutEnd (normalize cs) := by
  rcases exists_framed cs with hblank | ⟨front, words, body, back, h, rfl⟩
  · have htrim : clean .trim cutStart cutEnd cs <:+: cs := clean_isInfix (by simp) _ _ _
    rw [normalize_of_blank fun c hc => hblank c (htrim.mem hc), normalize_of_blank hblank]
  · rw [h.clean_trim, (h.trimmed cutStart cutEnd).normalize_eq, h.normalize_eq,
      h.intercalate.clean_trim]

/-- Normalizing gives the blanks in front, the words with one space between two of them, and the
blanks at the end, and leaves a text without words as it is. So it changes nothing the second time,
makes no text longer and none empty, and may be done before trimming or after it. -/
theorem clean_normalize_by_words (cutStart cutEnd : Bool) (cs : List Char) :
    ((∃ words, AreWords cs words) ↔ ∃ c ∈ cs, isBlank c = false) ∧
      (∀ words, AreWords cs words → clean .normalize cutStart cutEnd cs =
        leading cs ++ [' '].intercalate words ++ trailing cs) ∧
      ((∀ c ∈ cs, isBlank c = true) → clean .normalize cutStart cutEnd cs = cs) ∧
      (clean .normalize cutStart cutEnd cs).length ≤ cs.length ∧
      (clean .normalize cutStart cutEnd cs = [] ↔ cs = []) ∧
      ∀ otherStart otherEnd : Bool,
        clean .normalize otherStart otherEnd (clean .normalize cutStart cutEnd cs) =
            clean .normalize cutStart cutEnd cs ∧
          clean .normalize cutStart cutEnd (clean .trim otherStart otherEnd cs) =
            clean .trim otherStart otherEnd (clean .normalize cutStart cutEnd cs) := by
  refine ⟨exists_areWords_iff cs, fun words h => ?_, normalize_of_blank,
    length_clean_le .normalize cutStart cutEnd cs, normalize_eq_nil_iff cs,
    fun otherStart otherEnd => ⟨normalize_normalize cs, normalize_clean_trim _ _ cs⟩⟩
  obtain ⟨body, hframed, hcs⟩ := framed_of_areWords h
  calc normalize cs = normalize (leading cs ++ body ++ trailing cs) := by rw [hcs]
    _ = leading cs ++ [' '].intercalate words ++ trailing cs := hframed.normalize_eq

/-- Blanks of many kinds, one word of a single character, and a text that is all blank. -/
theorem clean_normalize_by_words_ragged :
    let cs := "\u2003 ab\t\u00a0\nc  d\x1c".toList
    AreWords cs [['a', 'b'], ['c'], ['d']] ∧
      clean .normalize true false cs = "\u2003 ab c d\x1c".toList ∧
      (∀ c ∈ "\r\n ".toList, isBlank c = true) ∧
      clean .normalize true true "\r\n ".toList = "\r\n ".toList := by
  intro cs
  have hlast : Spaced [['d']] ['d'] := .last (by decide)
  have hrest : Spaced [['c'], ['d']] (['c'] ++ [' ', ' '] ++ ['d']) :=
    .next (by decide) (by decide) hlast
  have hall : Spaced [['a', 'b'], ['c'], ['d']]
      (['a', 'b'] ++ ['\t', '\u00a0', '\n'] ++ (['c'] ++ [' ', ' '] ++ ['d'])) :=
    .next (by decide) (by decide) hrest
  have hwords : AreWords cs [['a', 'b'], ['c'], ['d']] := ⟨_, hall, by decide⟩
  have hblank : ∀ c ∈ "\r\n ".toList, isBlank c = true := List.all_eq_true.mp (by decide)
  obtain ⟨-, hnormalized, -⟩ := clean_normalize_by_words true false cs
  obtain ⟨-, -, hkept, -⟩ := clean_normalize_by_words true true "\r\n ".toList
  exact ⟨hwords, (hnormalized _ hwords).trans (by decide), hblank, hkept hblank⟩

end MarkdownExcerpt.Text
