import MarkdownExcerpt.Config.Json

/-! What can be asked of a finished configuration. It answers and never changes. -/

namespace MarkdownExcerpt

inductive ConfigRequest where
  | effectivePolicy (type : Option String) (category : Category)
  | leftOutTypes
  /-- Assigning to or deleting a field of the configuration or of one of its sections. -/
  | change (field : String)
  | changeOverride
  | override (type : String)
  | equals (other : Json)
  | copy
  | reload
  | dump

inductive ConfigReply where
  | word (word : Option String)
  | types (types : List String)
  | verdict (holds : Bool)
  /-- Whether a copy is equal; it shares its sections with the configuration. -/
  | copied (equal : Bool)
  | config (config : Config)
  | mismatch (mismatch : PolicyMismatch)
  | refused (issues : List Issue)
  | readOnly
  | noOverride

/-- Whether a value is read as this very configuration. -/
def Config.isReadFrom (config : Config) (value : Json) : ConfigReply :=
  match Config.ofJson value with
  | .valid other => .verdict (config == other)
  | .invalid issues => .refused issues

def Config.reply (config : Config) : ConfigRequest → ConfigReply
  | .effectivePolicy type category =>
    match config.behavior.effectivePolicy type category with
    | .ok policy => .word (policy.map Policy.word)
    | .error mismatch => .mismatch mismatch
  | .leftOutTypes => .types config.content.leftOutTypes
  | .change field => .refused [⟨[.field field], .frozen⟩]
  | .changeOverride => .readOnly
  | .override type =>
    match config.behavior.override? type with
    | some override => .word (some override.policy.word)
    | none => .noOverride
  | .equals other => config.isReadFrom other
  | .copy => .copied (config == config)
  | .reload => config.isReadFrom config.toJson
  | .dump => .config config

end MarkdownExcerpt
