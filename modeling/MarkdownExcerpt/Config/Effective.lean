import MarkdownExcerpt.Config

/-! The policy of a kind of nodes in two ways: looked up by type name and category, and looked up
by kind. For the category that a type has, the two are the same and there is no mismatch. -/

namespace MarkdownExcerpt

namespace Override

theorem isSome_leafPolicy? (kind : LeafKind) (override : Override) :
    (override.leafPolicy? kind).isSome = (override.type == kind.name) := by
  cases override <;> rename_i other _ <;> cases other <;> cases kind <;> rfl

theorem isSome_formattingPolicy? (kind : FormattingKind) (override : Override) :
    (override.formattingPolicy? kind).isSome = (override.type == kind.name) := by
  cases override <;> rename_i other _ <;> cases other <;> cases kind <;> rfl

theorem isSome_mediaPolicy? (kind : MediaKind) (override : Override) :
    (override.mediaPolicy? kind).isSome = (override.type == kind.name) := by
  cases override <;> rename_i other _ <;> cases other <;> cases kind <;> rfl

theorem isSome_blockPolicy? (kind : BlockKind) (override : Override) :
    (override.blockPolicy? kind).isSome = (override.type == kind.name) := by
  cases override <;> rename_i other _ <;> cases other <;> cases kind <;> rfl

end Override

namespace Behavior

/-- The first value that overrides give is that of the override found by type name, if the type
name tells for which overrides there is a value. -/
theorem findSome?_overrides {α : Type} {behavior : Behavior} {f : Override → Option α}
    {type : String} (h : ∀ override, (f override).isSome = (override.type == type)) :
    behavior.overrides.findSome? f = (behavior.override? type).bind f := by
  unfold override?
  induction behavior.overrides with
  | nil => rfl
  | cons override rest ih =>
    rw [List.findSome?_cons, List.find?_cons, ← h override]
    cases hf : f override with
    | none => exact ih
    | some value => simp [hf]

/-- The policy of a kind, if nodes of the kind have one. -/
def kindPolicy? (behavior : Behavior) : NodeKind → Option Policy
  | .leaf kind => some (.leaf (behavior.leafPolicy kind))
  | .formatting kind => some (.formatting (behavior.formattingPolicy kind))
  | .media kind => some (.media (behavior.mediaPolicy kind))
  | .block kind => some (.block (behavior.blockPolicy kind))
  | _ => none

/-- A category whose policies are those of a class has, for a type, the policy that the overrides
give for the type, or else its own. -/
theorem effectivePolicy_of {α : Type} {behavior : Behavior} {category : Category}
    {policyClass : PolicyClass} {wrap : α → Policy} {own : α} {f : Override → Option α}
    {type : String} (hclass : category.policyClass? = some policyClass)
    (hown : behavior.categoryPolicy? category = some (wrap own))
    (htype : ∀ override, (f override).isSome = (override.type == type))
    (hpolicy : ∀ override policy, f override = some policy → override.policy = wrap policy)
    (hword : ∀ policy, Policy.ofWord? (wrap policy).word policyClass = some (wrap policy)) :
    behavior.effectivePolicy (some type) category =
      .ok (some (wrap ((behavior.overrides.findSome? f).getD own))) := by
  simp only [effectivePolicy, hclass, hown, findSome?_overrides htype, Option.bind_some]
  cases found : behavior.override? type with
  | none => rfl
  | some override =>
    unfold override? at found
    have same : (override.type == type) = true := by simpa using List.find?_some found
    have given : (f override).isSome := by rw [htype, same]
    obtain ⟨policy, hp⟩ := Option.isSome_iff_exists.mp given
    simp [hpolicy override policy hp, hword, hp]

theorem effectivePolicy_leaf (behavior : Behavior) (kind : LeafKind) :
    behavior.effectivePolicy (some kind.name) kind.category =
      .ok (some (.leaf (behavior.leafPolicy kind))) :=
  effectivePolicy_of (by cases kind <;> rfl) (by cases kind <;> rfl)
    (Override.isSome_leafPolicy? kind)
    (fun override _ h => by cases override <;> simp_all [Override.leafPolicy?, Override.policy])
    (fun policy => by simp [Policy.ofWord?, Policy.word, LawfulVocabulary.ofWord?_word])

theorem effectivePolicy_formatting (behavior : Behavior) (kind : FormattingKind) :
    behavior.effectivePolicy (some kind.name) .formatting =
      .ok (some (.formatting (behavior.formattingPolicy kind))) :=
  effectivePolicy_of rfl rfl (Override.isSome_formattingPolicy? kind)
    (fun override _ h => by
      cases override <;> simp_all [Override.formattingPolicy?, Override.policy])
    (fun policy => by simp [Policy.ofWord?, Policy.word, LawfulVocabulary.ofWord?_word])

theorem effectivePolicy_media (behavior : Behavior) (kind : MediaKind) :
    behavior.effectivePolicy (some kind.name) .media =
      .ok (some (.media (behavior.mediaPolicy kind))) :=
  effectivePolicy_of rfl rfl (Override.isSome_mediaPolicy? kind)
    (fun override _ h => by cases override <;> simp_all [Override.mediaPolicy?, Override.policy])
    (fun policy => by simp [Policy.ofWord?, Policy.word, LawfulVocabulary.ofWord?_word])

theorem effectivePolicy_block (behavior : Behavior) (kind : BlockKind) :
    behavior.effectivePolicy (some kind.name) .block =
      .ok (some (.block (behavior.blockPolicy kind))) :=
  effectivePolicy_of rfl rfl (Override.isSome_blockPolicy? kind)
    (fun override _ h => by cases override <;> simp_all [Override.blockPolicy?, Override.policy])
    (fun policy => by simp [Policy.ofWord?, Policy.word, LawfulVocabulary.ofWord?_word])

/-- Looked up under the category of its type, a type's policy is that of its kind. -/
theorem effectivePolicy_eq_kindPolicy? (behavior : Behavior) (type : String) :
    behavior.effectivePolicy (some type) (NodeKind.ofName type).category =
      .ok (behavior.kindPolicy? (NodeKind.ofName type)) := by
  have name := @NodeKind.name?_ofName type
  cases kind : NodeKind.ofName type with
  | leaf k =>
    obtain rfl : k.name = type := by simpa [kind, NodeKind.name?] using name (by simp [kind])
    exact behavior.effectivePolicy_leaf k
  | formatting k =>
    obtain rfl : k.name = type := by simpa [kind, NodeKind.name?] using name (by simp [kind])
    exact behavior.effectivePolicy_formatting k
  | media k =>
    obtain rfl : k.name = type := by simpa [kind, NodeKind.name?] using name (by simp [kind])
    exact behavior.effectivePolicy_media k
  | block k =>
    obtain rfl : k.name = type := by simpa [kind, NodeKind.name?] using name (by simp [kind])
    exact behavior.effectivePolicy_block k
  | _ => rfl

end Behavior
end MarkdownExcerpt
