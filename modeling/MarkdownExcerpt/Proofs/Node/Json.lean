import MarkdownExcerpt.Proofs.Node.Children

/-! Trees as JSON objects. Where the list of children stands among the fields makes no difference,
so it is written last; a tree that was read from an object is read from what it is written as. -/
namespace MarkdownExcerpt

/-- No field is a list of children. -/
def Fields.HasNoChildren (fields : Fields) : Prop :=
  ∀ items : List Json, ("children", .arr items) ∉ fields

namespace Fields.HasNoChildren

lemma nil : HasNoChildren [] := fun _ => List.not_mem_nil

lemma cons {fields : Fields} (h : fields.HasNoChildren) {key : String} {value : Json}
    (hentry : key = "children" → ∀ items : List Json, value ≠ .arr items) :
    HasNoChildren ((key, value) :: fields) := by
  intro items hm
  rcases List.mem_cons.mp hm with heq | hm
  · obtain ⟨hkey, hvalue⟩ := Prod.mk.inj heq
    exact hentry hkey.symm items hvalue.symm
  · exact h items hm

lemma erase (fields : Fields) : HasNoChildren (Assoc.erase "children" fields) :=
  fun _ hm => Assoc.ne_of_mem_erase hm rfl

end Fields.HasNoChildren

mutual

/-- The children are a list in one place only, and what is no node is no object. -/
def Node.IsRegular : Node → Prop
  | .bare attributes => attributes.HasNoChildren
  | .parent attributes children => attributes.HasNoChildren ∧ Child.AreRegular children

def Child.IsRegular : Child → Prop
  | .node node => node.IsRegular
  | .stray value => ∀ fields : Fields, value ≠ .obj fields

def Child.AreRegular : List Child → Prop
  | [] => True
  | child :: rest => child.IsRegular ∧ Child.AreRegular rest

end

namespace Node

/-- The fields of the object that a tree is written as. -/
def toFields : Node → Fields
  | bare attributes => attributes
  | parent attributes children => attributes ++ [("children", .arr (Child.listToJson children))]

lemma toJson_eq (node : Node) : node.toJson = .obj node.toFields := by
  cases node <;> simp only [toJson, toFields]

lemma isRegular_withAttribute {node : Node} (h : node.IsRegular) {key : String} {value : Json}
    (hentry : key = "children" → ∀ items : List Json, value ≠ .arr items) :
    (node.withAttribute (key, value)).IsRegular := by
  cases node with
  | bare attributes =>
    simp only [withAttribute, mapAttributes, IsRegular] at h ⊢
    exact h.cons hentry
  | parent attributes children =>
    simp only [withAttribute, mapAttributes, IsRegular] at h ⊢
    exact ⟨h.1.cons hentry, h.2⟩

end Node

mutual

lemma Child.isRegular_ofJson : (value : Json) → (Child.ofJson value).IsRegular
  | .obj fields => by
    simp only [Child.ofJson, Child.IsRegular]
    exact Node.isRegular_ofFields fields
  | .null | .bool _ | .int _ | .decimal _ | .str _ | .arr _ => by
    simp only [Child.ofJson, Child.IsRegular]
    exact nofun

/-- Whatever object is read, a regular tree comes of it. -/
theorem Node.isRegular_ofFields : (fields : Fields) → (Node.ofFields fields).IsRegular
  | [] => by
    simp only [Node.ofFields, Node.IsRegular]
    exact .nil
  | (key, .arr items) :: rest => by
    unfold Node.ofFields
    split
    · simp only [Node.IsRegular]
      exact ⟨.erase rest, Child.areRegular_listOfJson items⟩
    · next hne => exact Node.isRegular_withAttribute (Node.isRegular_ofFields rest) (absurd · hne)
  | (key, .null) :: rest | (key, .bool _) :: rest | (key, .int _) :: rest
  | (key, .decimal _) :: rest | (key, .str _) :: rest | (key, .obj _) :: rest => by
    simp only [Node.ofFields]
    exact Node.isRegular_withAttribute (Node.isRegular_ofFields rest) fun _ => nofun

lemma Child.areRegular_listOfJson : (items : List Json) → Child.AreRegular (Child.listOfJson items)
  | [] => by simp only [Child.listOfJson, Child.AreRegular]
  | item :: rest => by
    simp only [Child.listOfJson, Child.AreRegular]
    exact ⟨Child.isRegular_ofJson item, Child.areRegular_listOfJson rest⟩

end

namespace Node

/-- Attributes in front of other fields become attributes in front. -/
lemma ofFields_append {attributes : Fields} (h : attributes.HasNoChildren) (fields : Fields) :
    ofFields (attributes ++ fields) = (ofFields fields).mapAttributes (attributes ++ ·) := by
  induction attributes with
  | nil => cases hnode : ofFields fields <;> simp [mapAttributes, hnode]
  | cons entry rest ih =>
    obtain ⟨key, value⟩ := entry
    have hrest := ih fun items hm => h items (List.mem_cons_of_mem _ hm)
    have hstep : ofFields ((key, value) :: (rest ++ fields)) =
        (ofFields (rest ++ fields)).withAttribute (key, value) := by
      cases value with
      | arr items =>
        have hkey : key ≠ "children" := by
          rintro rfl
          exact h items List.mem_cons_self
        simp only [ofFields, if_neg hkey]
      | _ => simp only [ofFields]
    rw [List.cons_append, hstep, hrest, withAttribute]
    cases ofFields fields <;> rfl

end Node

mutual

/-- A regular tree is read from what it is written as. -/
theorem Node.ofFields_toFields : (node : Node) → node.IsRegular → Node.ofFields node.toFields = node
  | .bare attributes, h => by
    simp only [Node.IsRegular] at h
    have happend := Node.ofFields_append h []
    simpa [Node.toFields, Node.ofFields, Node.mapAttributes] using happend
  | .parent attributes children, h => by
    simp only [Node.IsRegular] at h
    rw [Node.toFields, Node.ofFields_append h.1]
    simp [Node.ofFields, Node.mapAttributes, Assoc.erase,
      Child.listOfJson_listToJson children h.2]

lemma Child.ofJson_toJson : (child : Child) → child.IsRegular → Child.ofJson child.toJson = child
  | .node node, h => by
    simp only [Child.IsRegular] at h
    rw [Child.toJson, Node.toJson_eq, Child.ofJson, Node.ofFields_toFields node h]
  | .stray value, h => by
    simp only [Child.IsRegular] at h
    rw [Child.toJson]
    cases value with
    | obj fields => exact absurd rfl (h fields)
    | _ => simp only [Child.ofJson]

lemma Child.listOfJson_listToJson :
    (children : List Child) → Child.AreRegular children →
      Child.listOfJson (Child.listToJson children) = children
  | [], _ => by simp only [Child.listToJson, Child.listOfJson]
  | child :: rest, h => by
    simp only [Child.AreRegular] at h
    rw [Child.listToJson, Child.listOfJson, Child.ofJson_toJson child h.1,
      Child.listOfJson_listToJson rest h.2]

end

end MarkdownExcerpt
