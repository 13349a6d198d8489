import MarkdownExcerpt.Config

/-! Configurations and their sections as JSON. Every field has a default, no field is unknown, and
what is written is read back. -/

namespace MarkdownExcerpt

def Validated.policy {α : Type} [Vocabulary α] (value : Json) : Validated α :=
  match Vocabulary.ofJson value with
  | .ok policy => valid policy
  | .error error => refuse (.policy error)

namespace Override

/-- Reads the override for a type by the class of policies that the type's category has. -/
def ofJson (type : String) (value : Json) : Except Cause Override :=
  match NodeKind.ofName type with
  | .leaf kind => ((Vocabulary.ofJson value).mapError .policy).map (leaf kind)
  | .formatting kind => ((Vocabulary.ofJson value).mapError .policy).map (formatting kind)
  | .media kind => ((Vocabulary.ofJson value).mapError .policy).map (media kind)
  | .block kind => ((Vocabulary.ofJson value).mapError .policy).map (block kind)
  | _ => .error (.notConfigurable type)

/-- Reads overrides in order, up to the first that is refused. -/
def listOfFields : Fields → Except Cause (List Override)
  | [] => .ok []
  | (type, value) :: rest =>
    match ofJson type value with
    | .error cause => .error cause
    | .ok override => (listOfFields rest).map (override :: ·)

def listOfJson : Json → Except Cause (List Override)
  | .null => .ok []
  | .obj fields => listOfFields fields
  | _ => .error .overridesNotMapping

def listToJson (overrides : List Override) : Json :=
  .obj (overrides.map fun override => (override.type, .str override.policy.word))

end Override

namespace Behavior

def ofFields (fields : Fields) : Validated Behavior :=
  mk <$> fields.optional ["text"] .truncate Validated.policy
    <*> fields.optional ["inline_code"] .truncate Validated.policy
    <*> fields.optional ["code"] .truncate Validated.policy
    <*> fields.optional ["formatting"] .preserve Validated.policy
    <*> fields.optional ["media"] .preserve Validated.policy
    <*> fields.optional ["block"] .include Validated.policy
    <*> fields.optional ["by_type"] [] (fun value => .ofExcept (Override.listOfJson value))
    <* fields.noOthers
      [["text"], ["inline_code"], ["code"], ["formatting"], ["media"], ["block"], ["by_type"]]

def ofJson : Json → Validated Behavior := Validated.model "BehaviorConfig" ofFields

def toJson (behavior : Behavior) : Json :=
  .obj [("text", .str (Vocabulary.word behavior.text)),
    ("inline_code", .str (Vocabulary.word behavior.inlineCode)),
    ("code", .str (Vocabulary.word behavior.code)),
    ("formatting", .str (Vocabulary.word behavior.formatting)),
    ("media", .str (Vocabulary.word behavior.media)),
    ("block", .str (Vocabulary.word behavior.block)),
    ("by_type", Override.listToJson behavior.overrides)]

end Behavior

/-- A truth value says whether edges are trimmed; anything else has to name a policy. -/
def WhitespacePolicy.ofJson : Json → Validated WhitespacePolicy
  | .bool value => .valid (if value then .trim else .preserve)
  | value => Validated.policy value

namespace TextCleanup

def ofFields (fields : Fields) : Validated TextCleanup :=
  mk <$> fields.optional ["whitespace"] .trim WhitespacePolicy.ofJson
    <*> fields.optional ["merge_adjacent_text"] true Validated.bool
    <* fields.noOthers [["whitespace"], ["merge_adjacent_text"]]

def ofJson : Json → Validated TextCleanup := Validated.model "TextCleanupConfig" ofFields

def toJson (text : TextCleanup) : Json :=
  .obj [("whitespace", .str (Vocabulary.word text.whitespace)),
    ("merge_adjacent_text", .bool text.mergeAdjacentText)]

end TextCleanup

namespace Inclusion

def ofFields (fields : Fields) : Validated Inclusion :=
  mk <$> fields.optional ["html"] true Validated.bool
    <*> fields.optional ["definitions"] true Validated.bool
    <*> fields.optional ["footnote_definitions"] true Validated.bool
    <* fields.noOthers [["html"], ["definitions"], ["footnote_definitions"]]

def ofJson : Json → Validated Inclusion := Validated.model "ContentInclusionConfig" ofFields

def toJson (content : Inclusion) : Json :=
  .obj [("html", .bool content.html), ("definitions", .bool content.definitions),
    ("footnote_definitions", .bool content.footnoteDefinitions)]

end Inclusion

namespace Config

def ofFields (fields : Fields) : Validated Config :=
  mk <$> fields.optional ["behavior"] {} Behavior.ofJson
    <*> fields.optional ["text"] {} TextCleanup.ofJson
    <*> fields.optional ["content"] {} Inclusion.ofJson
    <*> fields.optional ["preserve_empty_blocks"] true Validated.bool
    <* fields.noOthers [["behavior"], ["text"], ["content"], ["preserve_empty_blocks"]]

def ofJson : Json → Validated Config := Validated.model "SliceConfig" ofFields

/-- Reads the configuration of a request, which need not give one. -/
def ofRequest : Json → Validated Config
  | .null => .valid {}
  | value => ofJson value

def toJson (config : Config) : Json :=
  .obj [("behavior", config.behavior.toJson), ("text", config.text.toJson),
    ("content", config.content.toJson),
    ("preserve_empty_blocks", .bool config.preserveEmptyBlocks)]

end Config
end MarkdownExcerpt
