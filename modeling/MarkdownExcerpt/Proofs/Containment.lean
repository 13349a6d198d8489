import MarkdownExcerpt.Proofs.Trimming

/-! Excerpts of one tree for two ranges, one within the other. A wider cut may take off blanks that
lie in the narrower range, but then the narrower cut is in the same leaf and takes them off too. -/
namespace MarkdownExcerpt

/-- A range lies within another one. Without an end it goes on beyond every document. -/
structure Range.IsWithin (narrow wide : Range) : Prop where
  start_le : wide.start ≤ narrow.start
  stop_le : ∀ last ∈ wide.stop, ∃ stop ∈ narrow.stop, stop ≤ last

lemma Range.IsWithin.stopWithin_le {narrow wide : Range} (h : narrow.IsWithin wide)
    (length : Nat) : narrow.stopWithin length ≤ wide.stopWithin length := by
  unfold stopWithin
  cases hwide : wide.stop with
  | none => exact narrow.stopWithin_le length
  | some last =>
    obtain ⟨stop, hstop, hle⟩ := h.stop_le last hwide
    rw [Option.mem_def.mp hstop]
    simp only
    omega

namespace Node.Trims

variable {node : Node} {wide narrow : Span} {front back front' back' : List Char}

/-- The blanks that a wider cut takes off in front are gone from the narrower window as well. -/
lemma front_mono (hwide : node.Trims wide front back) (hnarrow : node.Trims narrow front' back')
    (hstart : wide.start ≤ narrow.start) (hwindow : narrow.start < narrow.stop)
    (hstop : narrow.stop ≤ wide.stop) :
    min narrow.stop (wide.start + front.length) ≤ narrow.start + front'.length := by
  rcases hwide.front.eq_or_eq_nil with ⟨leaf, span, hcut, hfront⟩ | ⟨-, rfl⟩
  · by_cases hbefore : wide.start + front.length ≤ narrow.start
    · omega
    · have hbound := (hwide.front_of_cutAt (by omega) hcut).1
      have hcutStart := hcut.start_lt
      have hcut' : node.CutAt narrow.start leaf span :=
        ⟨hcut.mem, hcut.kind, by omega, by omega⟩
      have hle := @Span.le_leading_shown wide narrow span.start leaf.characters
        (Int.le_of_lt hcutStart) hstart (Int.le_of_lt hwindow) hstop
      rwa [← hfront, ← hnarrow.front.inside leaf span hcut'] at hle
  · rw [List.length_nil]
    omega

/-- The blanks that a wider cut takes off at the end are gone from the narrower window as well. -/
lemma back_mono (hwide : node.Trims wide front back) (hnarrow : node.Trims narrow front' back')
    (hstart : wide.start ≤ narrow.start) (hwindow : narrow.start < narrow.stop)
    (hstop : narrow.stop ≤ wide.stop)
    (hfront : wide.start + front.length ≤ narrow.start + front'.length) :
    narrow.stop - back'.length ≤ max (wide.stop - back.length) (narrow.start + front'.length) := by
  rcases hwide.back.eq_or_eq_nil with ⟨leaf, span, hcut, -⟩ | ⟨-, rfl⟩
  · by_cases hafter : narrow.stop ≤ wide.stop - back.length
    · omega
    · obtain ⟨hback, hbound, -⟩ := hwide.back_of_cutAt (by omega) hcut
      have hcutStop := hcut.lt_stop
      have hspan := stop_of_mem_spans hcut.mem
      have hcut' : node.CutAt narrow.stop leaf span :=
        ⟨hcut.mem, hcut.kind, by omega, by omega⟩
      have hleft := hnarrow.front_le_stop hwindow
      have hle := @Span.trailing_shown_le (wide.after front) (narrow.after front')
        span.start leaf.characters
        (by simp only [Span.after]; omega) hfront hleft hstop
        (by rw [← hback]; simp only [Span.after]; omega)
      rwa [← hback, ← (hnarrow.back_of_cutAt hwindow hcut').1] at hle
  · rw [List.length_nil]
    omega

/-- What a trimmed window shows is in what a wider trimmed window shows. -/
theorem shown_isInfix (hwide : node.Trims wide front back)
    (hnarrow : node.Trims narrow front' back') (hstart : wide.start ≤ narrow.start)
    (hwindow : narrow.start < narrow.stop) (hstop : narrow.stop ≤ wide.stop) :
    (narrow.trimmed front' back').shown 0 node.characters <:+:
      (wide.trimmed front back).shown 0 node.characters := by
  have hfront := hwide.front_mono hnarrow hstart hwindow hstop
  by_cases hempty : narrow.stop - back'.length ≤ narrow.start + front'.length
  · have hnil : (narrow.trimmed front' back').shown 0 node.characters = [] := by
      apply Text.piece_eq_nil
      simp only [Span.trimmed]
      omega
    rw [hnil]
    exact List.nil_infix
  · have hfront : wide.start + front.length ≤ narrow.start + front'.length := by omega
    have hback := hwide.back_mono hnarrow hstart hwindow hstop hfront
    apply Span.shown_isInfix_shown
    · exact hfront
    · simp only [Span.trimmed]
      omega

end Node.Trims

namespace Node

variable {config : Config} {node : Node} {wide narrow : Range}

lemma characters_excerptAlone_isInfix (hc : config.KeepsContent)
    (hw : config.text.whitespace ≠ .normalize) (hbreaks : node.BreaksEmpty)
    (h : narrow.IsWithin wide) :
    (node.excerptAlone config narrow).characters <:+:
      (node.excerptAlone config wide).characters := by
  have hstart := h.start_le
  have hstop := h.stopWithin_le node.length
  by_cases hnarrow : narrow.start < narrow.stopWithin node.length
  · cases hpolicy : config.text.whitespace with
    | normalize => exact absurd hpolicy hw
    | preserve =>
      rw [characters_excerptAlone hc hpolicy hbreaks, characters_excerptAlone hc hpolicy hbreaks]
      exact Text.piece_isInfix_piece _ hstart hstop
    | trim =>
      obtain ⟨front, back, hwide⟩ := exists_trims node (wide.window node)
      obtain ⟨front', back', htrims⟩ := exists_trims node (narrow.window node)
      rw [characters_excerptAlone_of_trims hc hpolicy hbreaks hnarrow htrims,
        characters_excerptAlone_of_trims hc hpolicy hbreaks (by omega) hwide]
      exact hwide.shown_isInfix htrims (Int.ofNat_le.mpr hstart) (Int.ofNat_lt.mpr hnarrow)
        (Int.ofNat_le.mpr hstop)
  · rw [characters_excerptAlone_of_le (by omega)]
    exact List.nil_infix

/-- The text of an excerpt for a range is a piece of the text of an excerpt for a wider range. -/
theorem text_excerpt_isInfix (hc : config.KeepsContent) (hw : config.text.whitespace ≠ .normalize)
    (hbreaks : node.BreaksEmpty) (number : Nat) (h : narrow.IsWithin wide) :
    ∃ wideExcerpt narrowExcerpt wideText narrowText,
      (node.excerpt config number wide {}).1 = .ok wideExcerpt ∧
      (node.excerpt config number narrow {}).1 = .ok narrowExcerpt ∧
      wideExcerpt.document.text = .ok wideText ∧ narrowExcerpt.document.text = .ok narrowText ∧
      narrowText.toList <:+: wideText.toList := by
  refine ⟨_, _, _, _, excerpt_fresh config number wide node,
    excerpt_fresh config number narrow node, Excerpt.text_document _, Excerpt.text_document _, ?_⟩
  rw [String.toList_ofList, String.toList_ofList]
  exact characters_excerptAlone_isInfix hc hw hbreaks h

/-- The wider cut takes off a blank that is in the narrower range, and so does the narrower cut. -/
theorem text_excerpt_isInfix_spacedNote :
    trimPolicies.KeepsContent ∧ trimPolicies.text.whitespace ≠ .normalize ∧
      spacedNote.BreaksEmpty ∧
      (⟨2, some 8, by decide⟩ : Range).IsWithin ⟨1, some 9, by decide⟩ ∧
      ∃ wideExcerpt narrowExcerpt,
        (spacedNote.excerpt trimPolicies 0 ⟨1, some 9, by decide⟩ {}).1 = .ok wideExcerpt ∧
        (spacedNote.excerpt trimPolicies 0 ⟨2, some 8, by decide⟩ {}).1 = .ok narrowExcerpt ∧
        wideExcerpt.document.text = .ok "  b  c" ∧ narrowExcerpt.document.text = .ok "  b" ∧
        "  b".toList <:+: "  b  c".toList := by
  have hwithin : (⟨2, some 8, by decide⟩ : Range).IsWithin ⟨1, some 9, by decide⟩ :=
    ⟨by decide, by simp⟩
  obtain ⟨wideExcerpt, narrowExcerpt, wideText, narrowText, hwide, hnarrow, hwideText, hnarrowText,
    hinfix⟩ := text_excerpt_isInfix keepsContent_trimPolicies (by decide) breaksEmpty_spacedNote 0
      hwithin
  obtain rfl := Except.ok.inj (hwide.symm.trans (excerpt_fresh _ _ _ _))
  obtain rfl := Except.ok.inj (hnarrow.symm.trans (excerpt_fresh _ _ _ _))
  obtain rfl : "  b  c" = wideText := Except.ok.inj hwideText
  obtain rfl : "  b" = narrowText := Except.ok.inj hnarrowText
  exact ⟨keepsContent_trimPolicies, by decide, breaksEmpty_spacedNote, hwithin, _, _, hwide,
    hnarrow, hwideText, hnarrowText, hinfix⟩

end Node
end MarkdownExcerpt
