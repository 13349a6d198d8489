import MarkdownExcerpt.Proofs.Agreement
import MarkdownExcerpt.Proofs.Substring

/-! What of a configuration has an influence on an excerpt. Policies are asked for no nodes but those
that the window cuts, and how blanks are cleaned matters for cut text leaves only. -/
namespace MarkdownExcerpt

/-- The walked nodes that the window covers, but not all of them. -/
def Node.cutEntries (window : Span) (node : Node) : List (Node × Span) :=
  node.spans.filter fun entry => entry.2.isCut window

/-- Two configurations say the same about whatever is not cut, and about the walked nodes that the
window cuts. -/
structure Config.AgreesWith (config other : Config) (window : Span) (node : Node) : Prop
    extends config.AgreesUncut other where
  policy : ∀ entry ∈ node.cutEntries window,
    config.behavior.effectivePolicy entry.1.type? entry.1.category =
      other.behavior.effectivePolicy entry.1.type? entry.1.category
  /-- How blanks are cleaned may differ if no text leaf is cut. -/
  whitespace : config.text.whitespace = other.text.whitespace ∨
    ∀ entry ∈ node.cutEntries window, entry.1.kind ≠ .leaf .text

variable {config other : Config} {window : Span}

/-- What is decided on a cut node depends on its policy and, if it is a text leaf, on how blanks are
cleaned. -/
lemma Decision.ofPartial_congr (h : config.AgreesUncut other) {node : Node}
    (hpolicy : config.behavior.kindPolicy? node.kind = other.behavior.kindPolicy? node.kind)
    (hclean : node.kind = .leaf .text → config.text.whitespace = other.text.whitespace)
    (span : Span) : ofPartial other window span node = ofPartial config window span node := by
  have hwhole := h.whole node
  cases hkind : node.kind with
  | leaf kind =>
    have hvisible : Treatment.visibleValue other window span kind node =
        Treatment.visibleValue config window span kind node := by
      cases kind with
      | text => simp only [Treatment.visibleValue, hclean hkind]
      | _ => rfl
    have hleaf : config.behavior.leafPolicy kind = other.behavior.leafPolicy kind := by
      simpa [hkind, Behavior.kindPolicy?] using hpolicy
    simp only [ofPartial, hkind, hleaf, hwhole, hvisible]
  | formatting kind =>
    have hformatting : config.behavior.formattingPolicy kind =
        other.behavior.formattingPolicy kind := by
      simpa [hkind, Behavior.kindPolicy?] using hpolicy
    simp only [ofPartial, hkind, hformatting, hwhole]
  | media kind =>
    have hmedia : config.behavior.mediaPolicy kind = other.behavior.mediaPolicy kind := by
      simpa [hkind, Behavior.kindPolicy?] using hpolicy
    simp only [ofPartial, hkind, hmedia, hwhole]
  | block kind =>
    have hblock : config.behavior.blockPolicy kind = other.behavior.blockPolicy kind := by
      simpa [hkind, Behavior.kindPolicy?] using hpolicy
    simp only [ofPartial, hkind, hblock, hwhole]
  | _ => simp only [ofPartial, hkind, hwhole]

namespace Node

variable {node : Node}

/-- Configurations that agree on the nodes that are cut decide alike on all nodes. -/
lemma decidesAlike_of_agreesWith (h : config.AgreesWith other window node) :
    DecidesAlike config other window window 0 (node.spansFrom 0) := by
  rintro ⟨inner, span⟩ he
  rw [Int.add_zero]
  have hspan : inner.spanFrom span.start = span := (span_bounds he).1.symm
  simp only [decision, Decision.of, hspan, h.leavesOut, h.whole]
  cases hmiss : span.misses window with
  | true => rfl
  | false =>
    cases hin : span.isWithin window with
    | true => rfl
    | false =>
      have hcut : (inner, span) ∈ node.cutEntries window :=
        List.mem_filter.mpr ⟨by rwa [spans_eq], by simp [Span.isCut, hmiss, hin]⟩
      have hpolicy := h.policy _ hcut
      rw [effectivePolicy_type?, effectivePolicy_type?, Except.ok.injEq] at hpolicy
      have hclean (htext : inner.kind = .leaf .text) :
          config.text.whitespace = other.text.whitespace :=
        h.whitespace.resolve_right fun hnone => hnone _ hcut htext
      rw [Decision.ofPartial_congr h.toAgreesUncut hpolicy hclean]

/-- Configurations that agree on the nodes that a range cuts give the same excerpt. -/
theorem excerpt_of_agreesWith {range : Range} (h : config.AgreesWith other (range.window node) node)
    (number : Nat) :
    ∃ excerpt, (node.excerpt config number range {}).1 = .ok excerpt ∧
      (node.excerpt other number range {}).1 = .ok excerpt := by
  refine ⟨_, excerpt_fresh config number range node, ?_⟩
  rw [excerpt_fresh, excerptAlone_congr h.join (decidesAlike_of_agreesWith h)]

/-- Policies that are quite unlike those that hold if nothing is said, but for list items. -/
def sternPolicies : Config where
  behavior :=
    { text := .includeFull, formatting := .exclude, media := .strip, block := .exclude
      overrides := [.block .listItem .include] }
  text := { whitespace := .normalize }

/-- Besides the root, the range cuts the list, its item and the code in it. -/
theorem excerpt_of_agreesWith_article :
    let range : Range := ⟨2, some 8, by decide⟩
    Config.AgreesWith {} sternPolicies (range.window article) article ∧
      ∃ excerpt, (article.excerpt {} 0 range {}).1 = .ok excerpt ∧
        (article.excerpt sternPolicies 0 range {}).1 = .ok excerpt ∧
        excerpt.node = some (wrapperOf "root" [
          wrapperOf "emphasis" [wrapperOf "paragraph" [leafOf "text" "cdef"]],
          bare [("type", .str "break")],
          wrapperOf "list" [wrapperOf "listItem" [leafOf "code" " g"]]]) := by
  intro range
  have hkinds : ∀ entry ∈ article.cutEntries (range.window article),
      ({} : Behavior).kindPolicy? entry.1.kind =
        sternPolicies.behavior.kindPolicy? entry.1.kind := by
    decide
  have hagrees : Config.AgreesWith {} sternPolicies (range.window article) article := by
    refine ⟨⟨rfl, rfl, rfl⟩, fun entry he => ?_, .inr (by decide)⟩
    rw [effectivePolicy_type?, effectivePolicy_type?, hkinds entry he]
  obtain ⟨excerpt, hexcerpt, hother⟩ := excerpt_of_agreesWith hagrees 0
  refine ⟨hagrees, excerpt, hexcerpt, hother, ?_⟩
  obtain rfl := Except.ok.inj (hexcerpt.symm.trans (excerpt_fresh _ _ _ _))
  rfl

end Node
end MarkdownExcerpt
