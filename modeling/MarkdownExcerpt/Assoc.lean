/-! Lists of key and value pairs, kept in the order in which keys first appeared.
The fields of an object and the lengths that a meter remembers are such lists. -/

namespace MarkdownExcerpt.Assoc

variable {α β : Type} [DecidableEq α]

/-- The value of the first pair with the key. -/
def get? (key : α) : List (α × β) → Option β
  | [] => none
  | (other, value) :: rest => if other = key then some value else get? key rest

/-- Overwrites the value of a key where it stands, or adds the pair at the end. -/
def set (key : α) (value : β) : List (α × β) → List (α × β)
  | [] => [(key, value)]
  | (other, previous) :: rest =>
    if other = key then (key, value) :: rest else (other, previous) :: set key value rest

/-- Drops every pair with the key. -/
def erase (key : α) : List (α × β) → List (α × β)
  | [] => []
  | (other, value) :: rest =>
    if other = key then erase key rest else (other, value) :: erase key rest

def contains (key : α) (entries : List (α × β)) : Bool := (get? key entries).isSome

@[simp] theorem get?_nil (key : α) : get? key ([] : List (α × β)) = none := rfl

theorem get?_set (key other : α) (value : β) (entries : List (α × β)) :
    get? other (set key value entries) =
      if key = other then some value else get? other entries := by
  induction entries with
  | nil => simp [set, get?]
  | cons entry rest ih =>
    obtain ⟨head, previous⟩ := entry
    by_cases h : head = key
    · subst h
      by_cases h' : head = other <;> simp [set, get?, h']
    · by_cases h' : head = other
      · subst h'
        simp [set, get?, h, Ne.symm h]
      · simp [set, get?, h, h', ih]

theorem mem_of_get? {key : α} {value : β} {entries : List (α × β)}
    (h : get? key entries = some value) : (key, value) ∈ entries := by
  induction entries with
  | nil => simp at h
  | cons entry rest ih =>
    obtain ⟨head, previous⟩ := entry
    by_cases hk : head = key
    · obtain rfl : previous = value := by simpa [get?, hk] using h
      simp [hk]
    · exact List.mem_cons_of_mem _ (ih (by simpa [get?, hk] using h))

theorem contains_of_mem {entry : α × β} {entries : List (α × β)} (h : entry ∈ entries) :
    contains entry.1 entries := by
  induction entries with
  | nil => simp at h
  | cons first rest ih =>
    obtain ⟨head, value⟩ := first
    unfold contains get?
    split
    · rfl
    · next hne =>
      rcases List.mem_cons.mp h with rfl | h
      · exact absurd rfl hne
      · exact ih h

/-- Writing adds no pair but the one that is written. -/
theorem mem_of_mem_set {key : α} {value : β} {entries : List (α × β)} {entry : α × β}
    (h : entry ∈ set key value entries) : entry = (key, value) ∨ entry ∈ entries := by
  induction entries with
  | nil => simpa [set] using h
  | cons first rest ih =>
    obtain ⟨head, previous⟩ := first
    unfold set at h
    split at h
    · rcases List.mem_cons.mp h with rfl | h
      · exact .inl rfl
      · exact .inr (List.mem_cons_of_mem _ h)
    · rcases List.mem_cons.mp h with rfl | h
      · exact .inr List.mem_cons_self
      · exact (ih h).imp_right (List.mem_cons_of_mem _)

theorem get?_erase (key other : α) (entries : List (α × β)) :
    get? other (erase key entries) = if key = other then none else get? other entries := by
  induction entries with
  | nil => simp [erase]
  | cons entry rest ih =>
    obtain ⟨head, value⟩ := entry
    by_cases h : head = key
    · subst h
      by_cases h' : head = other <;> simp_all [erase, get?]
    · by_cases h' : head = other
      · subst h'
        simp [erase, get?, h, Ne.symm h]
      · simp [erase, get?, h, h', ih]

theorem ne_of_mem_erase {key : α} {entries : List (α × β)} {entry : α × β}
    (h : entry ∈ erase key entries) : entry.1 ≠ key := by
  induction entries with
  | nil => simp [erase] at h
  | cons first rest ih =>
    obtain ⟨head, value⟩ := first
    unfold erase at h
    split at h
    · exact ih h
    · next hne =>
      rcases List.mem_cons.mp h with rfl | h
      · exact hne
      · exact ih h

@[simp] theorem erase_erase (key : α) (entries : List (α × β)) :
    erase key (erase key entries) = erase key entries := by
  induction entries with
  | nil => rfl
  | cons entry rest ih =>
    obtain ⟨head, value⟩ := entry
    by_cases h : head = key <;> simp [erase, h, ih]

@[simp] theorem set_set (key : α) (value next : β) (entries : List (α × β)) :
    set key next (set key value entries) = set key next entries := by
  induction entries with
  | nil => simp [set]
  | cons entry rest ih =>
    obtain ⟨head, previous⟩ := entry
    by_cases h : head = key <;> simp [set, h, ih]

/-- Writing one key and dropping another can change places. -/
theorem erase_set {key gone : α} (h : key ≠ gone) (value : β) (entries : List (α × β)) :
    erase gone (set key value entries) = set key value (erase gone entries) := by
  induction entries with
  | nil => simp [set, erase, h]
  | cons entry rest ih =>
    obtain ⟨head, previous⟩ := entry
    by_cases hk : head = key
    · subst hk
      simp [set, erase, h]
    · by_cases hg : head = gone
      · subst hg
        simp [set, erase, hk, ih]
      · simp [set, erase, hk, hg, ih]

end MarkdownExcerpt.Assoc
