import MarkdownExcerpt.Config.Json
import MarkdownExcerpt.Excerpt.Json
import MarkdownExcerpt.Position
import MarkdownExcerpt.Proofs.Node.Json
import MarkdownExcerpt.Proofs.Validation

/-! Models as JSON, there and back. Much more is read than is ever written: a value is written with
the words in present use and under the short names of its fields, and read as itself from that. -/
namespace MarkdownExcerpt

lemma Validated.policy_word {α : Type} [Vocabulary α] [LawfulVocabulary α] (policy : α) :
    Validated.policy (.str (Vocabulary.word policy)) = valid policy := by
  rw [Validated.policy, Vocabulary.ofJson_word]

namespace Override

/-- The kind of nodes that the override is for. -/
def kind : Override → NodeKind
  | leaf kind _ => .leaf kind
  | formatting kind _ => .formatting kind
  | media kind _ => .media kind
  | block kind _ => .block kind

lemma ofName_type (override : Override) : NodeKind.ofName override.type = override.kind :=
  NodeKind.ofName_of_name? (by cases override <;> rfl)

/-- The word of an override is read by the class of its type, so as the policy that it is for. -/
lemma ofJson_word (override : Override) :
    ofJson override.type (.str override.policy.word) = .ok override := by
  rw [ofJson, ofName_type]
  cases override <;>
    simp only [kind, Override.policy, Policy.word, Vocabulary.ofJson_word] <;> rfl

lemma listOfJson_listToJson (overrides : List Override) :
    listOfJson (listToJson overrides) = .ok overrides := by
  rw [listToJson, listOfJson]
  induction overrides with
  | nil => rfl
  | cons override rest ih =>
    rw [List.map_cons, listOfFields, ofJson_word]
    simp only [ih]
    rfl

end Override

theorem Behavior.ofJson_toJson (behavior : Behavior) :
    ofJson behavior.toJson = .valid behavior := by
  have hoverrides : Validated.ofExcept
      (Override.listOfJson (Override.listToJson behavior.overrides)) =
        .valid behavior.overrides := by
    rw [Override.listOfJson_listToJson]
    rfl
  rw [toJson, ofJson, Validated.model, ofFields,
    Fields.optional_of_pick? rfl (Validated.policy_word behavior.text),
    Fields.optional_of_pick? rfl (Validated.policy_word behavior.inlineCode),
    Fields.optional_of_pick? rfl (Validated.policy_word behavior.code),
    Fields.optional_of_pick? rfl (Validated.policy_word behavior.formatting),
    Fields.optional_of_pick? rfl (Validated.policy_word behavior.media),
    Fields.optional_of_pick? rfl (Validated.policy_word behavior.block),
    Fields.optional_of_pick? rfl hoverrides]
  rfl

theorem TextCleanup.ofJson_toJson (text : TextCleanup) : ofJson text.toJson = .valid text := by
  have hwhitespace : WhitespacePolicy.ofJson (.str (Vocabulary.word text.whitespace)) =
      .valid text.whitespace := Validated.policy_word text.whitespace
  rw [toJson, ofJson, Validated.model, ofFields, Fields.optional_of_pick? rfl hwhitespace]
  rfl

theorem Inclusion.ofJson_toJson (content : Inclusion) : ofJson content.toJson = .valid content :=
  rfl

theorem Config.ofJson_toJson (config : Config) : ofJson config.toJson = .valid config := by
  rw [toJson, ofJson, Validated.model, ofFields,
    Fields.optional_of_pick? rfl config.behavior.ofJson_toJson,
    Fields.optional_of_pick? rfl config.text.ofJson_toJson,
    Fields.optional_of_pick? rfl config.content.ofJson_toJson]
  rfl

theorem Info.ofJson_toJson (info : Info) : ofJson info.toJson = .valid info := by
  rw [toJson, ofJson, Validated.model, ofFields,
    Fields.optional_of_pick? rfl (Validated.natural_int info.originalLength),
    Fields.optional_of_pick? rfl (Validated.natural_int info.slicedLength),
    Fields.optional_of_pick? rfl (Validated.texts_ofTexts info.modifiedNodeTypes)]
  rfl

namespace Excerpt

/-- The tree of an excerpt, if there is one, can be an object. -/
def IsRegular (excerpt : Excerpt) : Prop := ∀ node ∈ excerpt.node, node.IsRegular

lemma nodeOfJson_nodeToJson {node : Option Node} (h : ∀ inner ∈ node, inner.IsRegular) :
    nodeOfJson (nodeToJson node) = .valid node := by
  cases node with
  | none => rfl
  | some node => rw [nodeToJson, Node.toJson_eq, nodeOfJson, node.ofFields_toFields (h node rfl)]

theorem ofJson_toJson {excerpt : Excerpt} (h : excerpt.IsRegular) :
    ofJson excerpt.toJson = .valid excerpt := by
  rw [toJson, ofJson, Validated.model, ofFields,
    Fields.optional_of_pick? rfl (nodeOfJson_nodeToJson h),
    Fields.optional_of_pick? rfl excerpt.boundaries.ofJson_toJson,
    Fields.optional_of_pick? rfl excerpt.info.ofJson_toJson]
  rfl

lemma isRegular_of_nodeOfJson {value : Json} {node : Option Node}
    (h : nodeOfJson value = .valid node) : ∀ inner ∈ node, inner.IsRegular := by
  intro inner hm
  cases value with
  | null =>
    obtain rfl := Validated.valid.inj h
    exact nomatch hm
  | obj fields =>
    obtain rfl := Validated.valid.inj h
    obtain rfl := Option.some.inj hm
    exact Node.isRegular_ofFields fields
  | _ => cases h

/-- An excerpt that was read has a tree that can be an object. -/
lemma isRegular_of_ofJson {value : Json} {excerpt : Excerpt}
    (h : ofJson value = .valid excerpt) : excerpt.IsRegular := by
  obtain ⟨fields, -, hfields⟩ := Validated.model_eq_valid_iff.mp h
  obtain ⟨hknown, -⟩ := Validated.seqLeft_eq_valid_iff.mp hfields
  obtain ⟨_, info, hrest, -, rfl⟩ := Validated.seq_eq_valid_iff.mp hknown
  obtain ⟨_, boundaries, hmap, -, rfl⟩ := Validated.seq_eq_valid_iff.mp hrest
  obtain ⟨node, hnode, rfl⟩ := Validated.map_eq_valid_iff.mp hmap
  rcases Fields.eq_default_or_read hnode with rfl | ⟨value, hread⟩
  · exact nofun
  · exact isRegular_of_nodeOfJson hread

end Excerpt

/-- What is read from JSON as a whole. -/
inductive Model where
  | config | behavior | text | content | excerpt | info | boundaries | position
  deriving DecidableEq, Repr

namespace Model

def Value : Model → Type
  | config => Config
  | behavior => Behavior
  | text => TextCleanup
  | content => Inclusion
  | excerpt => Excerpt
  | info => Info
  | boundaries => Boundaries
  | position => Position

def read : (model : Model) → Json → Validated model.Value
  | config => Config.ofJson
  | behavior => Behavior.ofJson
  | text => TextCleanup.ofJson
  | content => Inclusion.ofJson
  | excerpt => Excerpt.ofJson
  | info => Info.ofJson
  | boundaries => Boundaries.ofJson
  | position => Position.ofJson

def write : (model : Model) → model.Value → Json
  | config => Config.toJson
  | behavior => Behavior.toJson
  | text => TextCleanup.toJson
  | content => Inclusion.toJson
  | excerpt => Excerpt.toJson
  | info => Info.toJson
  | boundaries => Boundaries.toJson
  | position => Position.toJson

lemma read_write {model : Model} {given : Json} {value : model.Value}
    (h : model.read given = .valid value) : model.read (model.write value) = .valid value := by
  cases model with
  | config => exact Config.ofJson_toJson value
  | behavior => exact Behavior.ofJson_toJson value
  | text => exact TextCleanup.ofJson_toJson value
  | content => exact Inclusion.ofJson_toJson value
  | excerpt => exact Excerpt.ofJson_toJson (Excerpt.isRegular_of_ofJson h)
  | info => exact Info.ofJson_toJson value
  | boundaries => exact Boundaries.ofJson_toJson value
  | position => exact Position.ofJson_toJson value

/-- Whatever was read is read again from what it is written as, and is then written in the same
way. -/
theorem reload {model : Model} {given : Json} {value : model.Value}
    (h : model.read given = .valid value) :
    ∃ again, model.read (model.write value) = .valid again ∧ again = value ∧
      model.write again = model.write value :=
  ⟨value, read_write h, rfl, rfl⟩

/-- A configuration in older and careless words. -/
def looseConfig : Json :=
  .obj [("behavior", .obj [("text", .str " TRIM\n"), ("media", .str "Content_Only"),
      ("by_type", .obj [("strong", .str "trim"), ("link", .str "Exclude"),
        ("code", .str "preserve")])]),
    ("text", .obj [("whitespace", .bool false), ("merge_adjacent_text", .str "OFF")]),
    ("content", .obj [("html", .int 0), ("definitions", .decimal ⟨false, 10, 1⟩)])]

/-- The configuration that these words are for. -/
def meantConfig : Config where
  behavior :=
    { media := .contentOnly
      overrides := [.formatting .strong .strip, .media .link .strip, .leaf .code .includeFull] }
  text := ⟨.preserve, false⟩
  content := { html := false }

/-- An excerpt with its fields under long and short names, and with a stray child in its tree. -/
def looseExcerpt : Json :=
  .obj [("node", .obj [("children", .arr [.int 1, .obj [("children", .null)]]), ("type", .int 2)]),
    ("boundaries", .obj [("end", .str "+0_7")]),
    ("info", .obj [("original_length", .bool true), ("hasPartialNodes", .str "Yes"),
      ("modified_node_types", .arr [.str "text"])])]

def meantExcerpt : Excerpt where
  node := some (.parent [("type", .int 2)]
    [.stray (.int 1), .node (.bare [("children", .null)])])
  boundaries := ⟨0, 7⟩
  info := ⟨1, 0, true, ["text"]⟩

theorem reload_loose :
    config.read looseConfig = .valid meantConfig ∧
      (∃ again, config.read (config.write meantConfig) = .valid again ∧ again = meantConfig ∧
        config.write again = config.write meantConfig) ∧
      excerpt.read looseExcerpt = .valid meantExcerpt ∧
      ∃ again, excerpt.read (excerpt.write meantExcerpt) = .valid again ∧ again = meantExcerpt ∧
        excerpt.write again = excerpt.write meantExcerpt := by
  have hconfig : config.read looseConfig = .valid meantConfig := by
    show Config.ofJson looseConfig = .valid meantConfig
    decide +kernel
  have hexcerpt : excerpt.read looseExcerpt = .valid meantExcerpt := by
    rfl
  exact ⟨hconfig, reload hconfig, hexcerpt, reload hexcerpt⟩

end Model
end MarkdownExcerpt
