import MarkdownExcerpt.Proofs.Geometry
import MarkdownExcerpt.Proofs.Substring
import MarkdownExcerpt.Proofs.Text.Trim

/-! Trimming. What an excerpt loses by it are blanks of the text leaf in which its range starts and
of the one in which its range ends, and nothing of any other leaf. So the text of the excerpt is
still a piece of the document text. -/
namespace MarkdownExcerpt

namespace Node

variable {node leaf other : Node} {span place window : Span} {start offset : Int}

/-- A text leaf with an offset inside it, on neither of its edges. -/
structure CutAt (node : Node) (offset : Int) (leaf : Node) (span : Span) : Prop where
  mem : (leaf, span) ∈ node.spans
  kind : leaf.kind = .leaf .text
  start_lt : span.start < offset
  lt_stop : offset < span.stop

/-- What is taken off at an offset: blanks of the text leaf that has the offset inside it, and
nothing where there is no such leaf. -/
structure TakesOff (node : Node) (offset : Int) (blanks : Node → Span → List Char)
    (removed : List Char) : Prop where
  inside : ∀ leaf span, node.CutAt offset leaf span → removed = blanks leaf span
  between : (∀ leaf span, ¬node.CutAt offset leaf span) → removed = []

/-- What trimming takes off at the start and at the end of a window. At the end these are blanks of
what is left of the leaf, if the window starts in it too. -/
structure Trims (node : Node) (window : Span) (front back : List Char) : Prop where
  front : node.TakesOff window.start
    (fun leaf span => Text.leading (window.shown span.start leaf.characters)) front
  back : node.TakesOff window.stop
    (fun leaf span =>
      let part := window.shown span.start leaf.characters
      Text.trailing (if span.start < window.start then Text.trimStart part else part)) back

namespace CutAt

lemma bearsText (h : node.CutAt offset leaf span) : leaf.bearsText = true :=
  bearsText_of_leaf h.kind

/-- The other leaves lie before the one that is cut or after it. -/
lemma eq_or_apart (h : node.CutAt offset leaf span) (hmem : (other, place) ∈ node.spans)
    (hother : other.bearsText = true) :
    (leaf, span) = (other, place) ∨ span.stop ≤ place.start ∨ place.stop ≤ span.start :=
  leaf_eq_or_apart h.mem hmem h.bearsText hother

/-- A leaf that has the offset inside it is the one that is cut. -/
lemma eq_of_inside (h : node.CutAt offset leaf span) (hmem : (other, place) ∈ node.spans)
    (hother : other.bearsText = true) (hstart : place.start < offset)
    (hstop : offset < place.stop) : (leaf, span) = (other, place) := by
  have hcutStart := h.start_lt
  have hcutStop := h.lt_stop
  rcases h.eq_or_apart hmem hother with hsame | hbefore | hafter
  · exact hsame
  · omega
  · omega

/-- At one offset one leaf is cut at most. -/
lemma unique (h : node.CutAt offset leaf span) (h' : node.CutAt offset other place) :
    (leaf, span) = (other, place) :=
  h.eq_of_inside h'.mem h'.bearsText h'.start_lt h'.lt_stop

end CutAt

/-- Inside of a leaf of code no text leaf is cut. -/
lemma not_cutAt_of_inside (hmem : (leaf, span) ∈ node.spans) (hleaf : leaf.bearsText = true)
    (hstart : span.start < offset) (hstop : offset < span.stop)
    (hcut : ¬node.CutAt offset leaf span) : ∀ other place, ¬node.CutAt offset other place := by
  intro other place hother
  obtain ⟨rfl, rfl⟩ := Prod.mk.inj (hother.eq_of_inside hmem hleaf hstart hstop)
  exact hcut hother

lemma exists_takesOff (node : Node) (offset : Int) (blanks : Node → Span → List Char) :
    ∃ removed, node.TakesOff offset blanks removed := by
  by_cases h : ∃ leaf span, node.CutAt offset leaf span
  · obtain ⟨leaf, span, hcut⟩ := h
    refine ⟨blanks leaf span, ?_, fun hnone => absurd hcut (hnone leaf span)⟩
    intro other place hother
    obtain ⟨rfl, rfl⟩ := Prod.mk.inj (hcut.unique hother)
    rfl
  · exact ⟨[], fun leaf span hcut => absurd ⟨leaf, span, hcut⟩ h, fun _ => rfl⟩

lemma exists_trims (node : Node) (window : Span) : ∃ front back, node.Trims window front back := by
  obtain ⟨front, hfront⟩ := exists_takesOff node window.start
    fun leaf span => Text.leading (window.shown span.start leaf.characters)
  obtain ⟨back, hback⟩ := exists_takesOff node window.stop fun leaf span =>
    Text.trailing (if span.start < window.start
      then Text.trimStart (window.shown span.start leaf.characters)
      else window.shown span.start leaf.characters)
  exact ⟨front, back, hfront, hback⟩

/-- Something is taken off only in a leaf that is cut. -/
lemma TakesOff.eq_or_eq_nil {blanks : Node → Span → List Char} {removed : List Char}
    (h : node.TakesOff offset blanks removed) :
    (∃ leaf span, node.CutAt offset leaf span ∧ removed = blanks leaf span) ∨
      (∀ leaf span, ¬node.CutAt offset leaf span) ∧ removed = [] := by
  by_cases hcut : ∃ leaf span, node.CutAt offset leaf span
  · obtain ⟨leaf, span, hcut⟩ := hcut
    exact .inl ⟨leaf, span, hcut, h.inside leaf span hcut⟩
  · have hnone : ∀ leaf span, ¬node.CutAt offset leaf span :=
      fun leaf span hleaf => hcut ⟨leaf, span, hleaf⟩
    exact .inr ⟨hnone, h.between hnone⟩

end Node

/-- A window without the blanks that are taken off in front. -/
def Span.after (window : Span) (front : List Char) : Span :=
  ⟨window.start + front.length, window.stop⟩

/-- A window without the blanks that are taken off at its edges. -/
def Span.trimmed (window : Span) (front back : List Char) : Span :=
  ⟨window.start + front.length, window.stop - back.length⟩

namespace Node.Trims

variable {config : Config} {node leaf : Node} {span window : Span} {front back : List Char}

/-- The blanks in front are those of the leaf that is cut there, and what the window shows of this
leaf after them is what is left of it. -/
lemma front_of_cutAt (h : node.Trims window front back) (hwindow : window.start < window.stop)
    (hcut : node.CutAt window.start leaf span) :
    window.start + front.length ≤ min window.stop span.stop ∧
      (⟨window.start, window.start + front.length⟩ : Span).shown span.start leaf.characters =
        front ∧
      (window.after front).shown span.start leaf.characters =
        Text.trimStart (window.shown span.start leaf.characters) := by
  have hcutStart := hcut.start_lt
  have hcutStop := hcut.lt_stop
  have hspan := stop_of_mem_spans hcut.mem
  have hlength := (Text.leading_isPrefix (window.shown span.start leaf.characters)).length_le
  obtain ⟨htaken, hleft⟩ := @Span.shown_leading window span.start leaf.characters
    (Int.le_of_lt hcutStart) (Int.le_of_lt hwindow)
  rw [Span.length_shown_eq] at hlength
  rw [h.front.inside leaf span hcut]
  exact ⟨by omega, htaken, hleft⟩

lemma front_le_stop (h : node.Trims window front back) (hwindow : window.start < window.stop) :
    window.start + front.length ≤ window.stop := by
  rcases h.front.eq_or_eq_nil with ⟨leaf, span, hcut, -⟩ | ⟨-, rfl⟩
  · have hbound := (h.front_of_cutAt hwindow hcut).1
    omega
  · simpa using Int.le_of_lt hwindow

/-- Leaves that start in the window are left alone in front. -/
lemma front_le_start (h : node.Trims window front back) (hwindow : window.start < window.stop)
    (hmem : (leaf, span) ∈ node.spans) (hleaf : leaf.bearsText = true)
    (hstart : window.start ≤ span.start) : window.start + front.length ≤ span.start := by
  rcases h.front.eq_or_eq_nil with ⟨other, place, hcut, -⟩ | ⟨-, rfl⟩
  · have hbound := (h.front_of_cutAt hwindow hcut).1
    have hspan := stop_of_mem_spans hmem
    have hcutStart := hcut.start_lt
    rcases hcut.eq_or_apart hmem hleaf with hsame | hbefore | hafter
    · obtain ⟨rfl, rfl⟩ := Prod.mk.inj hsame
      omega
    · omega
    · omega
  · simpa using hstart

/-- Without the blanks in front, the window shows of a leaf that is not cut there what it showed. -/
lemma shown_of_not_cutAt_start (h : node.Trims window front back)
    (hwindow : window.start < window.stop) (hmem : (leaf, span) ∈ node.spans)
    (hleaf : leaf.bearsText = true) (hseen : window.start < span.stop)
    (hcut : ¬node.CutAt window.start leaf span) :
    (window.after front).shown span.start leaf.characters =
      window.shown span.start leaf.characters := by
  by_cases hstart : window.start ≤ span.start
  · have hle := h.front_le_start hwindow hmem hleaf hstart
    simp only [Span.shown, Span.after]
    congr 1
    omega
  · have hnone := not_cutAt_of_inside hmem hleaf (by omega) hseen hcut
    simp [h.front.between hnone, Span.after]

/-- What is left of a text leaf in front. -/
lemma shown_text (h : node.Trims window front back) (hwindow : window.start < window.stop)
    (hmem : (leaf, span) ∈ node.spans) (hkind : leaf.kind = .leaf .text)
    (hseen : window.start < span.stop) :
    (window.after front).shown span.start leaf.characters =
      if span.start < window.start then Text.trimStart (window.shown span.start leaf.characters)
      else window.shown span.start leaf.characters := by
  split
  · next hstart => exact (h.front_of_cutAt hwindow ⟨hmem, hkind, hstart, hseen⟩).2.2
  · next hstart =>
    have hleaf : leaf.bearsText = true := bearsText_of_leaf hkind
    exact h.shown_of_not_cutAt_start hwindow hmem hleaf hseen fun hcut => hstart hcut.start_lt

/-- The blanks at the end are those of what is left of the leaf that is cut there. -/
lemma back_of_cutAt (h : node.Trims window front back) (hwindow : window.start < window.stop)
    (hcut : node.CutAt window.stop leaf span) :
    back = Text.trailing ((window.after front).shown span.start leaf.characters) ∧
      max (window.start + front.length) span.start ≤ window.stop - back.length ∧
      (⟨window.stop - back.length, window.stop⟩ : Span).shown span.start leaf.characters = back ∧
      (window.trimmed front back).shown span.start leaf.characters =
        Text.trimEnd ((window.after front).shown span.start leaf.characters) := by
  have hcutStart := hcut.start_lt
  have hcutStop := hcut.lt_stop
  have hspan := stop_of_mem_spans hcut.mem
  have hback := h.back.inside leaf span hcut
  have hfront := h.front_le_stop hwindow
  simp only at hback
  rw [← h.shown_text hwindow hcut.mem hcut.kind (by omega)] at hback
  have hlength :=
    (Text.trailing_isSuffix ((window.after front).shown span.start leaf.characters)).length_le
  have hend : window.stop ≤ span.start + leaf.characters.length := by omega
  obtain ⟨hleft, htaken⟩ := @Span.shown_trailing (window.after front) span.start leaf.characters
    hend hfront
  rw [Span.length_shown_eq, ← hback] at hlength
  rw [← hback] at htaken hleft
  simp only [Span.after] at hlength
  exact ⟨hback, by omega, htaken, hleft⟩

lemma front_le_back (h : node.Trims window front back) (hwindow : window.start < window.stop) :
    window.start + front.length ≤ window.stop - back.length := by
  rcases h.back.eq_or_eq_nil with ⟨leaf, span, hcut, -⟩ | ⟨-, rfl⟩
  · have hbound := (h.back_of_cutAt hwindow hcut).2.1
    omega
  · simpa using h.front_le_stop hwindow

/-- Leaves that stop in the window are left alone at the end. -/
lemma stop_le_back (h : node.Trims window front back) (hwindow : window.start < window.stop)
    (hmem : (leaf, span) ∈ node.spans) (hleaf : leaf.bearsText = true)
    (hstop : span.stop ≤ window.stop) : span.stop ≤ window.stop - back.length := by
  rcases h.back.eq_or_eq_nil with ⟨other, place, hcut, -⟩ | ⟨-, rfl⟩
  · have hbound := (h.back_of_cutAt hwindow hcut).2.1
    have hspan := stop_of_mem_spans hmem
    have hcutStop := hcut.lt_stop
    rcases hcut.eq_or_apart hmem hleaf with hsame | hbefore | hafter
    · obtain ⟨rfl, rfl⟩ := Prod.mk.inj hsame
      omega
    · omega
    · omega
  · simpa using hstop

lemma shown_of_not_cutAt_stop (h : node.Trims window front back)
    (hwindow : window.start < window.stop) (hmem : (leaf, span) ∈ node.spans)
    (hleaf : leaf.bearsText = true) (hseen : span.start < window.stop)
    (hcut : ¬node.CutAt window.stop leaf span) :
    (window.trimmed front back).shown span.start leaf.characters =
      (window.after front).shown span.start leaf.characters := by
  by_cases hstop : span.stop ≤ window.stop
  · have hle := h.stop_le_back hwindow hmem hleaf hstop
    have hspan := stop_of_mem_spans hmem
    simp only [Span.shown, Span.trimmed, Span.after]
    rw [← Text.piece_min_length, ← Text.piece_min_length _ _ (window.stop - span.start).toNat]
    congr 1
    omega
  · have hnone := not_cutAt_of_inside hmem hleaf hseen (by omega) hcut
    simp [h.back.between hnone, Span.trimmed, Span.after]

/-- Of every leaf that the window meets, the trimmed window shows what is left. -/
lemma showsLeft (h : node.Trims window front back) (hw : config.text.whitespace = .trim)
    (hwindow : window.start < window.stop) (hmem : (leaf, span) ∈ node.spans) :
    ShowsLeft config window (window.trimmed front back) leaf span := by
  intro kind hkind hseen
  obtain ⟨hstart, hstop⟩ := Span.misses_eq_false_iff.mp hseen
  have hleaf : leaf.bearsText = true := bearsText_of_leaf hkind
  rw [← characters_of_bearsText hleaf]
  cases kind with
  | text =>
    have hvisible : Treatment.visibleValue config window span .text leaf =
        if window.stop < span.stop then
          Text.trimEnd ((window.after front).shown span.start leaf.characters)
        else (window.after front).shown span.start leaf.characters := by
      rw [h.shown_text hwindow hmem hkind hstart, characters_of_bearsText hleaf]
      simp [Treatment.visibleValue, Text.clean, hw, Span.shown]
    rw [hvisible]
    split
    · next hcut => exact (h.back_of_cutAt hwindow ⟨hmem, hkind, hstop, hcut⟩).2.2.2
    · next hcut =>
      exact h.shown_of_not_cutAt_stop hwindow hmem hleaf hstop fun hleft => hcut hleft.lt_stop
  | _ =>
    have hcode : ∀ offset, ¬node.CutAt offset leaf span := by
      intro offset hcut
      simp [hcut.kind] at hkind
    rw [h.shown_of_not_cutAt_stop hwindow hmem hleaf hstop (hcode _),
      h.shown_of_not_cutAt_start hwindow hmem hleaf hstart (hcode _), characters_of_bearsText hleaf]
    rfl

/-- What is taken off in front stands at the start of the window in the whole text. -/
lemma shown_front (h : node.Trims window front back) (hwindow : window.start < window.stop) :
    (⟨window.start, window.start + front.length⟩ : Span).shown 0 node.characters = front := by
  rcases h.front.eq_or_eq_nil with ⟨leaf, span, hcut, -⟩ | ⟨-, rfl⟩
  · have hstart := hcut.start_lt
    obtain ⟨hbound, htaken, -⟩ := h.front_of_cutAt hwindow hcut
    rw [shown_of_mem_spans hcut.mem (by simp only; omega) (by simp only; omega), htaken]
  · apply Text.piece_eq_nil
    simp only [List.length_nil]
    omega

lemma shown_back (h : node.Trims window front back) (hwindow : window.start < window.stop) :
    (⟨window.stop - back.length, window.stop⟩ : Span).shown 0 node.characters = back := by
  rcases h.back.eq_or_eq_nil with ⟨leaf, span, hcut, -⟩ | ⟨-, rfl⟩
  · have hstop := hcut.lt_stop
    obtain ⟨-, hbound, htaken, -⟩ := h.back_of_cutAt hwindow hcut
    rw [shown_of_mem_spans hcut.mem (by simp only; omega) (by simp only; omega), htaken]
  · apply Text.piece_eq_nil
    simp only [List.length_nil]
    omega

end Node.Trims

namespace Node

variable {config : Config} {node : Node} {range : Range}

/-- With trimming an excerpt has the text that the trimmed window shows. -/
theorem characters_excerptAlone_of_trims (hc : config.KeepsContent)
    (hw : config.text.whitespace = .trim) (hbreaks : node.BreaksEmpty)
    (hrange : range.start < range.stopWithin node.length) {front back : List Char}
    (h : node.Trims (range.window node) front back) :
    (node.excerptAlone config range).characters =
      ((range.window node).trimmed front back).shown 0 node.characters := by
  have hwindow : (range.window node).start < (range.window node).stop := Int.ofNat_lt.mpr hrange
  rw [Excerpt.characters, node_excerptAlone hrange, Outcome.characters_tree?]
  apply characters_outcome hc (by simp [hw]) _ _ hbreaks
  · rintro ⟨leaf, span⟩ hmem
    rw [← spans_eq] at hmem
    exact h.showsLeft hw hwindow hmem
  · exact Int.le_add_of_nonneg_right (Int.natCast_nonneg _)
  · exact Int.sub_le_self _ (Int.natCast_nonneg _)

/-- With trimming, the text of an excerpt is the piece of the document text between the blanks that
are taken off at the edges of the range. -/
theorem text_excerpt_trims (hc : config.KeepsContent) (hw : config.text.whitespace = .trim)
    (hbreaks : node.BreaksEmpty) (number : Nat)
    (hrange : range.start < range.stopWithin node.length) :
    ∃ excerpt first last, (node.excerpt config number range {}).1 = .ok excerpt ∧
      excerpt.document.text = .ok (String.ofList (Text.piece node.characters first last)) ∧
      range.start ≤ first ∧ first ≤ last ∧ last ≤ range.stopWithin node.length ∧
      node.Trims (range.window node) (Text.piece node.characters range.start first)
        (Text.piece node.characters last (range.stopWithin node.length)) := by
  obtain ⟨front, back, h⟩ := exists_trims node (range.window node)
  have hwindow : (range.window node).start < (range.window node).stop := Int.ofNat_lt.mpr hrange
  have hle := h.front_le_back hwindow
  have htext := characters_excerptAlone_of_trims hc hw hbreaks hrange h
  have hfirst : (range.window node).start + front.length = (range.start + front.length : Nat) := rfl
  have hlast : (range.window node).stop - back.length =
      (range.stopWithin node.length - back.length : Nat) := by
    simp only [Range.window] at hle ⊢
    omega
  rw [Span.trimmed, hfirst, hlast, Span.shown_zero] at htext
  have hfront := h.shown_front hwindow
  have hback := h.shown_back hwindow
  rw [hfirst, Range.window, Span.shown_zero] at hfront
  rw [hlast, Range.window, Span.shown_zero] at hback
  refine ⟨_, range.start + front.length, range.stopWithin node.length - back.length,
    excerpt_fresh config number range node, ?_, by omega, ?_, by omega, ?_⟩
  · rw [Excerpt.text_document, htext]
  · rw [hfirst, hlast] at hle
    exact Int.ofNat_le.mp hle
  · rwa [hfront, hback]

/-- Text with blanks on both sides of the edges of its leaves. -/
def spacedNote : Node :=
  wrapperOf "root" [leafOf "text" "a  ", wrapperOf "paragraph" [leafOf "text" "  b  c"],
    leafOf "code" " d "]

/-- Policies by which wrappers give way and text is trimmed. -/
def trimPolicies : Config := { plainPolicies with text := { whitespace := .trim } }

lemma keepsContent_trimPolicies : trimPolicies.KeepsContent :=
  keepsContent_plainPolicies.withText _

lemma breaksEmpty_spacedNote : spacedNote.BreaksEmpty := by
  unfold BreaksEmpty Throughout
  decide

/-- The blanks that are cut in the first leaf are lost up to its end, and those at the start of the
second leaf are not. -/
theorem text_excerpt_trims_spacedNote :
    trimPolicies.KeepsContent ∧ trimPolicies.text.whitespace = .trim ∧ spacedNote.BreaksEmpty ∧
      ∃ excerpt, (spacedNote.excerpt trimPolicies 0 ⟨1, some 7, by decide⟩ {}).1 = .ok excerpt ∧
        excerpt.document.text = .ok "  b" ∧
        spacedNote.Trims ⟨1, 7⟩ "  ".toList " ".toList := by
  obtain ⟨excerpt, first, last, hexcerpt, htext, hstart, hle, hstop, htrims⟩ :=
    @text_excerpt_trims trimPolicies spacedNote ⟨1, some 7, by decide⟩ keepsContent_trimPolicies rfl
      breaksEmpty_spacedNote 0 (by decide)
  have hfront : Text.piece spacedNote.characters 1 first = "  ".toList :=
    htrims.front.inside (leafOf "text" "a  ") ⟨0, 3⟩
      ⟨List.mem_of_getElem? (i := 1) rfl, rfl, by decide, by decide⟩
  have hback : Text.piece spacedNote.characters last 7 = " ".toList :=
    htrims.back.inside (leafOf "text" "  b  c") ⟨3, 9⟩
      ⟨List.mem_of_getElem? (i := 3) rfl, rfl, by decide, by decide⟩
  have hfirst := congrArg List.length hfront
  have hlast := congrArg List.length hback
  rw [Text.length_piece, show spacedNote.characters.length = 12 from rfl] at hfirst hlast
  obtain rfl : first = 3 := by
    simp only [show "  ".toList.length = 2 from rfl] at hfirst
    omega
  obtain rfl : last = 6 := by
    simp only [show " ".toList.length = 1 from rfl] at hlast
    omega
  exact ⟨keepsContent_trimPolicies, rfl, breaksEmpty_spacedNote, excerpt, hexcerpt, htext, htrims⟩

end Node
end MarkdownExcerpt
