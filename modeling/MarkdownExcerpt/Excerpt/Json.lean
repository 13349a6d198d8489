import MarkdownExcerpt.Excerpt
import MarkdownExcerpt.Validation.Scalar

/-! Excerpts and their parts as JSON. Fields are written under their short names and read under
these or the long ones; where both are given the short one counts and the long one is unknown. -/

namespace MarkdownExcerpt

namespace Boundaries

def ofFields (fields : Fields) : Validated Boundaries :=
  mk <$> fields.optional ["start"] 0 Validated.natural
    <*> fields.optional ["end"] 0 Validated.natural
    <* fields.noOthers [["start"], ["end"]]

def ofJson : Json → Validated Boundaries := Validated.model "SliceBoundaries" ofFields

def toJson (boundaries : Boundaries) : Json :=
  .obj [("start", .int boundaries.start), ("end", .int boundaries.stop)]

end Boundaries

namespace Info

def ofFields (fields : Fields) : Validated Info :=
  mk <$> fields.optional ["originalLength", "original_length"] 0 Validated.natural
    <*> fields.optional ["slicedLength", "sliced_length"] 0 Validated.natural
    <*> fields.optional ["hasPartialNodes", "has_partial_nodes"] false Validated.bool
    <*> fields.optional ["modifiedNodeTypes", "modified_node_types"] [] Validated.texts
    <* fields.noOthers [["originalLength", "original_length"], ["slicedLength", "sliced_length"],
      ["hasPartialNodes", "has_partial_nodes"], ["modifiedNodeTypes", "modified_node_types"]]

def ofJson : Json → Validated Info := Validated.model "SliceInfo" ofFields

def toJson (info : Info) : Json :=
  .obj [("originalLength", .int info.originalLength), ("slicedLength", .int info.slicedLength),
    ("hasPartialNodes", .bool info.hasPartialNodes),
    ("modifiedNodeTypes", .ofTexts info.modifiedNodeTypes)]

end Info

namespace Excerpt

def nodeOfJson : Json → Validated (Option Node)
  | .null => .valid none
  | .obj fields => .valid (some (.ofFields fields))
  | _ => .refuse .notObject

def nodeToJson : Option Node → Json
  | none => .null
  | some node => node.toJson

def ofFields (fields : Fields) : Validated Excerpt :=
  mk <$> fields.optional ["node"] none nodeOfJson
    <*> fields.optional ["boundaries"] {} Boundaries.ofJson
    <*> fields.optional ["info"] {} Info.ofJson
    <* fields.noOthers [["node"], ["boundaries"], ["info"]]

def ofJson : Json → Validated Excerpt := Validated.model "SliceResult" ofFields

def toJson (excerpt : Excerpt) : Json :=
  .obj [("node", nodeToJson excerpt.node), ("boundaries", excerpt.boundaries.toJson),
    ("info", excerpt.info.toJson)]

end Excerpt

theorem Boundaries.ofJson_toJson (boundaries : Boundaries) :
    ofJson boundaries.toJson = .valid boundaries := rfl

end MarkdownExcerpt
