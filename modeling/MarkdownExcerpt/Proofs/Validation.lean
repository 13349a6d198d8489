import Mathlib.Tactic.Lemma
import MarkdownExcerpt.Validation

/-! What readings that are taken together come to: a value if each of them has one, and otherwise
the issues of all of them in order. -/
namespace MarkdownExcerpt

/-- An issue with the value at a place as one with the value that holds it. -/
def Issue.within (place : Place) (issue : Issue) : Issue :=
  { issue with location := place :: issue.location }

namespace Validated

variable {α β : Type}

@[simp] lemma map_valid (f : α → β) (value : α) : f <$> valid value = valid (f value) := rfl

@[simp] lemma within_valid (place : Place) (value : α) :
    (valid value).within place = valid value := rfl

lemma seq_eq_valid_iff {f : Validated (α → β)} {reading : Validated α} {result : β} :
    f <*> reading = valid result ↔
      ∃ g value, f = valid g ∧ reading = valid value ∧ g value = result := by
  constructor
  · intro h
    cases f with
    | invalid issues => cases reading <;> cases h
    | valid g =>
      cases reading with
      | invalid issues => cases h
      | valid value => exact ⟨g, value, rfl, rfl, valid.inj h⟩
  · rintro ⟨g, value, rfl, rfl, rfl⟩
    rfl

lemma map_eq_valid_iff {f : α → β} {reading : Validated α} {result : β} :
    f <$> reading = valid result ↔ ∃ value, reading = valid value ∧ f value = result := by
  cases reading with
  | invalid issues => exact ⟨nofun, nofun⟩
  | valid value => simp

lemma seqLeft_eq_valid_iff {reading : Validated α} {other : Validated β} {result : α} :
    reading <* other = valid result ↔ reading = valid result ∧ ∃ value, other = valid value := by
  constructor
  · intro h
    cases reading with
    | invalid issues => cases other <;> cases h
    | valid value =>
      cases other with
      | invalid issues => cases h
      | valid second => exact ⟨h, second, rfl⟩
  · rintro ⟨rfl, value, rfl⟩
    rfl

lemma within_eq_valid_iff {place : Place} {reading : Validated α} {result : α} :
    reading.within place = valid result ↔ reading = valid result := by
  cases reading with
  | invalid issues => exact ⟨nofun, nofun⟩
  | valid value => rfl

lemma model_eq_valid_iff {name : String} {read : Fields → Validated α} {value : Json} {result : α} :
    model name read value = valid result ↔
      ∃ fields, value = .obj fields ∧ read fields = valid result := by
  constructor
  · intro h
    cases value with
    | obj fields => exact ⟨fields, rfl, h⟩
    | _ => cases h
  · rintro ⟨fields, rfl, h⟩
    exact h

/-- A reading with the issues that there are, and with a value if there are none. -/
def reporting (issues : List Issue) (value : α) : Validated α :=
  if issues = [] then valid value else invalid issues

lemma valid_eq_reporting (value : α) : valid value = reporting [] value := rfl

lemma reporting_eq_valid_iff {issues : List Issue} {value result : α} :
    reporting issues value = valid result ↔ issues = [] ∧ value = result := by
  unfold reporting
  split
  · next h => simp [h]
  · next h => simp [h]

@[simp] lemma map_reporting (f : α → β) (issues : List Issue) (value : α) :
    f <$> reporting issues value = reporting issues (f value) := by
  unfold reporting
  split <;> rfl

@[simp] lemma seq_reporting (first second : List Issue) (f : α → β) (value : α) :
    reporting first f <*> reporting second value = reporting (first ++ second) (f value) := by
  cases first with
  | nil =>
    cases second with
    | nil => rfl
    | cons issue rest => rfl
  | cons issue rest =>
    cases second with
    | nil =>
      rw [List.append_nil]
      rfl
    | cons next others => rfl

@[simp] lemma within_reporting (place : Place) (issues : List Issue) (value : α) :
    (reporting issues value).within place = reporting (issues.map (Issue.within place)) value := by
  cases issues <;> rfl

lemma seqLeft_valid_right (reading : Validated α) (other : β) :
    reading <* valid other = reading := by
  cases reading <;> rfl

end Validated

namespace Fields

variable {α : Type} {fields : Fields} {names : List String} {default result : α}
  {read : Json → Validated α}

lemma optional_eq_within (name : String) {value : Json}
    (hpick : pick? names fields = some (name, value)) :
    fields.optional names default read = (read value).within (.field name) := by
  rw [optional, hpick]

lemma optional_of_pick? {name : String} {value : Json}
    (hpick : pick? names fields = some (name, value)) (hread : read value = .valid result) :
    fields.optional names default read = .valid result := by
  rw [optional_eq_within name hpick, hread, Validated.within_valid]

lemma optional_singleton (fields : Fields) (name : String) (default : α)
    (read : Json → Validated α) :
    fields.optional [name] default read =
      match Assoc.get? name fields with
      | none => .valid default
      | some value => (read value).within (.field name) := by
  unfold optional pick?
  rw [List.findSome?_singleton]
  cases Assoc.get? name fields <;> rfl

/-- Fields of which each is known under its one name are all that there are. -/
lemma noOthers_of_known {known : List (List String)}
    (h : ∀ entry ∈ fields, [entry.1] ∈ known) : fields.noOthers known = .valid () := by
  have hnone : (fields.filter fun entry =>
      !(known.filterMap fun names => (pick? names fields).map (·.1)).contains entry.1) = [] := by
    rw [List.filter_eq_nil_iff]
    intro entry hm
    obtain ⟨value, hvalue⟩ := Option.isSome_iff_exists.mp (Assoc.contains_of_mem hm)
    have hpick : pick? [entry.1] fields = some (entry.1, value) := by
      rw [pick?, List.findSome?_singleton, hvalue]
      rfl
    simpa using ⟨_, h entry hm, by simp [hpick]⟩
  rw [noOthers]
  simp only [hnone]

/-- What a field that may be absent comes to was read, or nothing was there. -/
lemma eq_default_or_read (h : fields.optional names default read = .valid result) :
    result = default ∨ ∃ value, read value = .valid result := by
  unfold optional at h
  split at h
  · exact .inl (Validated.valid.inj h).symm
  · exact .inr ⟨_, Validated.within_eq_valid_iff.mp h⟩

end Fields
end MarkdownExcerpt
