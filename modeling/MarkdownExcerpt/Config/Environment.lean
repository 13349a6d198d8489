import MarkdownExcerpt.Config.Json

/-! Configurations from environment variables. A policy variable counts when it is not empty, the
whitespace variable whenever it is set, and a switch is on for a few words and off for any other. -/

namespace MarkdownExcerpt

abbrev Environment := List (String × String)

/-- Why an environment makes no configuration: the section at fault and all that is wrong in it. -/
structure EnvironmentError where
  model : String
  issues : List Issue
  deriving DecidableEq, Repr

def EnvironmentError.message (error : EnvironmentError) : String :=
  let count := error.issues.length
  "Invalid MDSLICE_* environment configuration: " ++ toString count ++
    (if count = 1 then " validation error for " else " validation errors for ") ++ error.model

namespace Environment

/-- The policy that a variable names, for the field of that name. -/
def policy {α : Type} [Vocabulary α] (environment : Environment) (name field : String)
    (default : α) : Validated α :=
  match Assoc.get? name environment with
  | none => .valid default
  | some raw =>
    if raw = "" then .valid default else (Validated.policy (.str raw)).within (.field field)

def behavior (environment : Environment) : Validated Behavior :=
  Behavior.mk <$> environment.policy "MDSLICE_TEXT_POLICY" "text" .truncate
    <*> environment.policy "MDSLICE_INLINE_CODE_POLICY" "inline_code" .truncate
    <*> environment.policy "MDSLICE_CODE_POLICY" "code" .truncate
    <*> environment.policy "MDSLICE_FORMATTING_POLICY" "formatting" .preserve
    <*> environment.policy "MDSLICE_MEDIA_POLICY" "media" .preserve
    <*> environment.policy "MDSLICE_BLOCK_POLICY" "block" .include
    <*> pure []

def whitespace (environment : Environment) : Validated WhitespacePolicy :=
  match Assoc.get? "MDSLICE_WHITESPACE" environment with
  | none => .valid .trim
  | some raw => (Validated.policy (.str raw)).within (.field "whitespace")

/-- Words that turn a switch on, in any letter case. -/
def onWords : List String := ["1", "true", "yes", "on"]

def switch (environment : Environment) (name : String) : Bool :=
  match Assoc.get? name environment with
  | none => true
  | some raw => onWords.contains (String.ofList (raw.toList.map Char.toLower))

def text (environment : Environment) : Validated TextCleanup :=
  TextCleanup.mk <$> environment.whitespace
    <*> pure (environment.switch "MDSLICE_MERGE_ADJACENT_TEXT")

def content (environment : Environment) : Inclusion where
  html := environment.switch "MDSLICE_INCLUDE_HTML"
  definitions := environment.switch "MDSLICE_INCLUDE_DEFINITIONS"
  footnoteDefinitions := environment.switch "MDSLICE_INCLUDE_FOOTNOTE_DEFINITIONS"

end Environment

/-- The configuration that an environment asks for. The sections are read one after the other, so
issues of the first hide those of the next. -/
def Config.ofEnvironment (environment : Environment) : Except EnvironmentError Config :=
  match environment.behavior with
  | .invalid issues => .error ⟨"BehaviorConfig", issues⟩
  | .valid behavior =>
    match environment.text with
    | .invalid issues => .error ⟨"TextCleanupConfig", issues⟩
    | .valid text =>
      .ok ⟨behavior, text, environment.content,
        environment.switch "MDSLICE_PRESERVE_EMPTY_BLOCKS"⟩

end MarkdownExcerpt
