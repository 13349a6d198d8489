import MarkdownExcerpt.Proofs.Substring

/-! Finding text. The search reports every offset at which a piece of text starts, once and in
order, and these are the offsets at which cutting so many characters out gives that piece. -/
namespace MarkdownExcerpt

namespace Text

variable {needle text cs : List Char} {start offset found : Nat}

/-- The piece of text starts at the offset. -/
def OccursAt (needle text : List Char) (offset : Nat) : Prop := needle <+: text.drop offset

lemma occursAt_drop : OccursAt needle (text.drop start) offset ↔
    OccursAt needle text (start + offset) := by
  rw [OccursAt, OccursAt, List.drop_drop]

/-- What starts at an offset is there for as many characters as it has. -/
lemma occursAt_iff_piece :
    OccursAt needle text offset ↔ piece text offset (offset + needle.length) = needle := by
  rw [OccursAt, List.prefix_iff_eq_take, piece, Nat.add_sub_cancel_left, eq_comm]

lemma not_occursAt_nil (hne : needle ≠ []) : ¬OccursAt needle [] offset := by
  rw [OccursAt, List.drop_nil, List.prefix_nil]
  exact hne

/-- Where nothing is found, the piece of text is nowhere. -/
lemma not_occursAt_of_first? (hne : needle ≠ []) (h : first? needle offset cs = none) :
    ∀ i, ¬OccursAt needle cs i := by
  induction cs generalizing offset with
  | nil => exact fun i => not_occursAt_nil hne
  | cons c rest ih =>
    simp only [first?] at h
    split at h
    · cases h
    · next hhead =>
      intro i
      cases i with
      | zero => exact fun hoccurs => hhead (List.isPrefixOf_iff_prefix.mpr hoccurs)
      | succ i => exact ih h i

/-- What is found is the first place. -/
lemma occursAt_of_first? (h : first? needle offset cs = some found) :
    ∃ i, found = offset + i ∧ OccursAt needle cs i ∧ ∀ j < i, ¬OccursAt needle cs j := by
  induction cs generalizing offset with
  | nil => cases h
  | cons c rest ih =>
    simp only [first?] at h
    split at h
    · next hhead =>
      obtain rfl := Option.some.inj h
      exact ⟨0, rfl, List.isPrefixOf_iff_prefix.mp hhead, by simp⟩
    · next hhead =>
      obtain ⟨i, hfound, hoccurs, hfirst⟩ := ih h
      refine ⟨i + 1, by omega, hoccurs, fun j hj => ?_⟩
      cases j with
      | zero => exact fun hoccurs => hhead (List.isPrefixOf_iff_prefix.mpr hoccurs)
      | succ j => exact hfirst j (by omega)

/-- The search finds every place from its start on. -/
theorem mem_occurrences_iff (hne : needle ≠ []) :
    offset ∈ occurrences needle text start ↔ start ≤ offset ∧ OccursAt needle text offset := by
  fun_induction occurrences needle text start with
  | case1 start h =>
    have hnone := not_occursAt_of_first? hne h
    simp only [List.not_mem_nil, false_iff, not_and]
    intro hle hoccurs
    apply hnone (offset - start)
    rwa [occursAt_drop, Nat.add_sub_cancel' hle]
  | case2 start found h ih =>
    obtain ⟨i, rfl, hoccurs, hfirst⟩ := occursAt_of_first? h
    rw [occursAt_drop] at hoccurs
    rw [List.mem_cons, ih]
    constructor
    · rintro (rfl | ⟨hle, hat⟩)
      · exact ⟨by omega, hoccurs⟩
      · exact ⟨by omega, hat⟩
    · rintro ⟨hle, hat⟩
      -- Between the start and the first place there is none.
      have hnot : ¬offset - start < i := fun hlt => by
        apply hfirst _ hlt
        rwa [occursAt_drop, Nat.add_sub_cancel' hle]
      by_cases heq : offset = start + i
      · exact .inl heq
      · exact .inr ⟨by omega, hat⟩

/-- The search reports every place once, the earlier one first. -/
theorem pairwise_occurrences (hne : needle ≠ []) (text : List Char) (start : Nat) :
    (occurrences needle text start).Pairwise (· < ·) := by
  fun_induction occurrences needle text start with
  | case1 start h => exact .nil
  | case2 start found h ih =>
    exact .cons (fun offset ho => ((mem_occurrences_iff hne).mp ho).1) ih

end Text

/-- Policies that leave cut text as it is; all others are the usual ones. -/
def Config.verbatim : Config where
  text := { whitespace := .preserve }

lemma Config.keepsContent_verbatim : Config.verbatim.KeepsContent := by
  refine ⟨rfl, ?_, ?_, ?_, ?_⟩ <;> intro kind <;> cases kind <;> decide

namespace Document

/-- The characters of a document; what is no document has none. -/
def characters : Document → List Char
  | tree root => root.characters
  | _ => []

lemma text_eq {document : Document} (htree : document ≠ .malformed) :
    document.text = .ok (String.ofList document.characters) := by
  cases document with
  | malformed => exact absurd rfl htree
  | _ => rfl

lemma find_eq {document : Document} (htree : document ≠ .malformed) {needle : String}
    (hne : needle ≠ "") : document.find (.str needle) =
      .ok (Text.occurrences needle.toList document.characters 0) := by
  have hgiven : (Json.str needle).isVacuous = false := by simpa [Json.isVacuous] using hne
  simp [find, hgiven, text_eq htree]

/-- Cutting so many characters out from an offset on gives the piece of text that is there. -/
lemma excerpt_verbatim {document : Document} (htree : document ≠ .malformed)
    (hbreaks : ∀ root, document = .tree root → root.BreaksEmpty) {count : Nat} (hcount : 0 < count)
    (number offset : Nat) :
    ∃ excerpt,
      (document.excerpt .verbatim number (.int offset) (.int (offset + count : Nat)) {}).1 =
        .ok excerpt ∧
      excerpt.characters = Text.piece document.characters offset (offset + count) := by
  have hlt : offset < offset + count := by omega
  obtain ⟨range, hrange, hstart, hstop⟩ := Range.exists_ofJson_of_names (.upTo hlt)
  cases document with
  | malformed => exact absurd rfl htree
  | empty =>
    refine ⟨{}, by rw [excerpt, hrange], ?_⟩
    simp [Excerpt.characters, characters, Text.piece]
  | tree root =>
    refine ⟨_, excerpt_tree hrange .verbatim number root, ?_⟩
    rw [Node.characters_excerptAlone Config.keepsContent_verbatim rfl (hbreaks root rfl),
      Range.stopWithin_eq_min, hstart, hstop, ← Node.length_characters, Text.piece_min_length]
    rfl

/-- A text is found at exactly those offsets from which on a cut of its length gives a tree with
that text. -/
theorem find_eq_offsets {document : Document} (htree : document ≠ .malformed)
    (hbreaks : ∀ root, document = .tree root → root.BreaksEmpty) {needle : String}
    (hne : needle ≠ "") (number : Nat) :
    ∃ positions, document.find (.str needle) = .ok positions ∧ positions.Pairwise (· < ·) ∧
      ∀ offset, offset ∈ positions ↔
        ∃ excerpt,
          (document.excerpt .verbatim number (.int offset)
            (.int (offset + needle.length : Nat)) {}).1 = .ok excerpt ∧
          excerpt.node.isSome = true ∧ excerpt.document.text = .ok needle := by
  have hchars : needle.toList ≠ [] := by simpa using hne
  have hcount : 0 < needle.length := by
    rw [← String.length_toList]
    exact List.length_pos_iff.mpr hchars
  refine ⟨_, find_eq htree hne, Text.pairwise_occurrences hchars _ _, fun offset => ?_⟩
  obtain ⟨excerpt, hexcerpt, htext⟩ := excerpt_verbatim htree hbreaks hcount number offset
  rw [Text.mem_occurrences_iff hchars, Text.occursAt_iff_piece, String.length_toList, ← htext]
  constructor
  · rintro ⟨-, hpiece⟩
    refine ⟨excerpt, hexcerpt, ?_, ?_⟩
    · cases hnode : excerpt.node with
      | some node => rfl
      | none =>
        rw [Excerpt.characters, hnode] at hpiece
        exact absurd hpiece.symm hchars
    · rw [Excerpt.text_document, hpiece, String.ofList_toList]
  · rintro ⟨other, hother, -, hneedle⟩
    obtain rfl := Except.ok.inj (hexcerpt.symm.trans hother)
    rw [Excerpt.text_document] at hneedle
    rw [← Except.ok.inj hneedle, String.toList_ofList]
    exact ⟨Nat.zero_le _, rfl⟩

/-- The same letter in several leaves, with a break among them. -/
def echo : Node :=
  .wrapperOf "root" [.leafOf "text" "aa", .wrapperOf "emphasis" [.leafOf "text" "a"],
    .bare [("type", .str "break")], .leafOf "code" "ab"]

theorem find_eq_offsets_echo :
    tree echo ≠ .malformed ∧ (∀ root, tree echo = .tree root → root.BreaksEmpty) ∧ "aa" ≠ "" ∧
      (tree echo).find (.str "aa") = .ok [0, 1, 2] ∧
      ∀ offset : Nat, offset ∈ [0, 1, 2] ↔
        ∃ excerpt,
          ((tree echo).excerpt .verbatim 0 (.int offset) (.int (offset + 2 : Nat)) {}).1 =
            .ok excerpt ∧
          excerpt.node.isSome = true ∧ excerpt.document.text = .ok "aa" := by
  have htree : tree echo ≠ .malformed := by simp
  have hbreaks : ∀ root, tree echo = .tree root → root.BreaksEmpty := by
    intro root hroot
    obtain rfl := tree.inj hroot
    unfold Node.BreaksEmpty Node.Throughout
    decide
  have hne : "aa" ≠ "" := by decide
  have hchars : (tree echo).characters = ['a', 'a', 'a', 'a', 'b'] := by decide
  have hfind : (tree echo).find (.str "aa") = .ok [0, 1, 2] := by
    rw [find_eq htree hne, hchars]
    cbv
  obtain ⟨positions, hpositions, -, hoffsets⟩ := find_eq_offsets htree hbreaks hne 0
  obtain rfl := Except.ok.inj (hfind.symm.trans hpositions)
  exact ⟨htree, hbreaks, hne, hfind, hoffsets⟩

end Document
end MarkdownExcerpt
