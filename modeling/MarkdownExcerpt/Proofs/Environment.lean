import Mathlib.Data.List.Nodup
import MarkdownExcerpt.Config.Environment
import MarkdownExcerpt.Proofs.Validation

/-! What an environment says, setting by setting. Loading it is reading the object that holds what
is said, but for what becomes of the issues; each of the twelve variables has a say in one field, and
no other variable has any. -/
namespace MarkdownExcerpt

/-- The policies that have a variable each. -/
inductive PolicySetting where
  | text | inlineCode | code | formatting | media | block
  deriving DecidableEq, Repr

namespace PolicySetting

/-- In the order in which their fields are declared. -/
def all : List PolicySetting := [text, inlineCode, code, formatting, media, block]

def variableName : PolicySetting → String
  | text => "MDSLICE_TEXT_POLICY"
  | inlineCode => "MDSLICE_INLINE_CODE_POLICY"
  | code => "MDSLICE_CODE_POLICY"
  | formatting => "MDSLICE_FORMATTING_POLICY"
  | media => "MDSLICE_MEDIA_POLICY"
  | block => "MDSLICE_BLOCK_POLICY"

def field : PolicySetting → String
  | text => "text"
  | inlineCode => "inline_code"
  | code => "code"
  | formatting => "formatting"
  | media => "media"
  | block => "block"

def policyClass : PolicySetting → PolicyClass
  | text => .leaf
  | inlineCode => .leaf
  | code => .leaf
  | formatting => .formatting
  | media => .media
  | block => .block

lemma mem_all (setting : PolicySetting) : setting ∈ all := by cases setting <;> decide

end PolicySetting

/-- The truth values that have a variable each. -/
inductive Switch where
  | mergeAdjacentText | html | definitions | footnoteDefinitions | preserveEmptyBlocks
  deriving DecidableEq, Repr

namespace Switch

def all : List Switch :=
  [mergeAdjacentText, html, definitions, footnoteDefinitions, preserveEmptyBlocks]

def variableName : Switch → String
  | mergeAdjacentText => "MDSLICE_MERGE_ADJACENT_TEXT"
  | html => "MDSLICE_INCLUDE_HTML"
  | definitions => "MDSLICE_INCLUDE_DEFINITIONS"
  | footnoteDefinitions => "MDSLICE_INCLUDE_FOOTNOTE_DEFINITIONS"
  | preserveEmptyBlocks => "MDSLICE_PRESERVE_EMPTY_BLOCKS"

def field : Switch → String
  | mergeAdjacentText => "merge_adjacent_text"
  | html => "html"
  | definitions => "definitions"
  | footnoteDefinitions => "footnote_definitions"
  | preserveEmptyBlocks => "preserve_empty_blocks"

lemma mem_all (toggle : Switch) : toggle ∈ all := by cases toggle <;> decide

end Switch

/-- What an environment can have a say in. -/
inductive Setting where
  | policy (setting : PolicySetting)
  | whitespace
  | switch (toggle : Switch)
  deriving DecidableEq, Repr

namespace Setting

def all : List Setting := PolicySetting.all.map policy ++ whitespace :: Switch.all.map switch

def variableName : Setting → String
  | policy setting => setting.variableName
  | whitespace => "MDSLICE_WHITESPACE"
  | switch toggle => toggle.variableName

def field : Setting → String
  | policy setting => setting.field
  | whitespace => "whitespace"
  | switch toggle => toggle.field

lemma mem_all (setting : Setting) : setting ∈ all := by
  cases setting with
  | policy setting => simp [all, setting.mem_all]
  | whitespace => simp [all]
  | switch toggle => simp [all, toggle.mem_all]

/-- The class of policies that the setting is one of. -/
def policyClass? : Setting → Option PolicyClass
  | policy setting => some setting.policyClass
  | whitespace => some .whitespace
  | switch _ => none

lemma field_injective : Function.Injective field := fun first second h =>
  List.inj_on_of_nodup_map (show (all.map field).Nodup by decide) first.mem_all second.mem_all h

lemma variableName_injective : Function.Injective variableName := fun first second h =>
  List.inj_on_of_nodup_map (show (all.map variableName).Nodup by decide) first.mem_all
    second.mem_all h

end Setting

namespace Environment

/-- Whether a text turns a switch on. No word for that holds a letter that a capital outside ASCII
turns into, so ASCII letters are all that has to be changed. -/
def isOn (raw : String) : Bool := onWords.contains (String.ofList (raw.toList.map Char.toLower))

/-- What the environment says for a setting: a policy that is not empty, the whitespace policy
whatever it is, and whether a switch is on. -/
def given? (environment : Environment) : Setting → Option Json
  | .policy setting =>
    ((Assoc.get? setting.variableName environment).filter (· ≠ "")).map .str
  | .whitespace => (Assoc.get? Setting.whitespace.variableName environment).map .str
  | .switch toggle => (Assoc.get? toggle.variableName environment).map fun raw => .bool (isOn raw)

/-- The fields for those of the settings that the environment has a say in. -/
def fieldsOf (environment : Environment) (settings : List Setting) : Fields :=
  settings.filterMap fun setting =>
    (environment.given? setting).map fun value => (setting.field, value)

def requestFields (environment : Environment) : Fields :=
  ("behavior", .obj (environment.fieldsOf (PolicySetting.all.map .policy))) ::
    ("text", .obj (environment.fieldsOf [.whitespace, .switch .mergeAdjacentText])) ::
    ("content", .obj (environment.fieldsOf
      [.switch .html, .switch .definitions, .switch .footnoteDefinitions])) ::
    environment.fieldsOf [.switch .preserveEmptyBlocks]

/-- All that the environment says, as an object. -/
def request (environment : Environment) : Json := .obj environment.requestFields

variable {environment : Environment} {settings : List Setting}

lemma get?_fieldsOf (setting : Setting) :
    Assoc.get? setting.field (environment.fieldsOf settings) =
      if setting ∈ settings then environment.given? setting else none := by
  induction settings with
  | nil => rfl
  | cons first rest ih =>
    rw [fieldsOf] at ih ⊢
    by_cases hfirst : setting = first
    · subst hfirst
      cases hgiven : environment.given? setting with
      | none => simp_all
      | some value => simp [hgiven, Assoc.get?]
    · have hfield : first.field ≠ setting.field := fun h => hfirst (Setting.field_injective h).symm
      cases hgiven : environment.given? first with
      | none => simp_all
      | some value => simp [hgiven, Assoc.get?, hfield, hfirst, ih]

lemma exists_of_mem_fieldsOf {entry : String × Json} (h : entry ∈ environment.fieldsOf settings) :
    ∃ setting ∈ settings, setting.field = entry.1 := by
  obtain ⟨setting, hm, hsome⟩ := List.mem_filterMap.mp h
  obtain ⟨_, -, rfl⟩ := Option.map_eq_some_iff.mp hsome
  exact ⟨setting, hm, rfl⟩

lemma get?_fieldsOf_of_ne {name : String} (h : ∀ setting ∈ settings, setting.field ≠ name) :
    Assoc.get? name (environment.fieldsOf settings) = none := by
  cases hget : Assoc.get? name (environment.fieldsOf settings) with
  | none => rfl
  | some value =>
    obtain ⟨setting, hm, hname⟩ := exists_of_mem_fieldsOf (Assoc.mem_of_get? hget)
    exact absurd hname (h setting hm)

/-- Reads what the environment says for a setting, if it says anything. -/
def reading {α : Type} (environment : Environment) (setting : Setting) (default : α)
    (read : Json → Validated α) : Validated α :=
  match environment.given? setting with
  | none => .valid default
  | some value => (read value).within (.field setting.field)

lemma optional_fieldsOf {α : Type} {setting : Setting} (h : setting ∈ settings) (default : α)
    (read : Json → Validated α) :
    (environment.fieldsOf settings).optional [setting.field] default read =
      environment.reading setting default read := by
  rw [Fields.optional_singleton, get?_fieldsOf, if_pos h]
  rfl

lemma noOthers_fieldsOf {known : List (List String)}
    (h : ∀ setting ∈ settings, [setting.field] ∈ known) :
    (environment.fieldsOf settings).noOthers known = .valid () := by
  refine Fields.noOthers_of_known fun entry hm => ?_
  obtain ⟨setting, hsetting, hname⟩ := exists_of_mem_fieldsOf hm
  exact hname ▸ h setting hsetting

lemma policy_eq_reading {α : Type} [Vocabulary α] (setting : PolicySetting) (default : α) :
    environment.policy setting.variableName setting.field default =
      environment.reading (.policy setting) default Validated.policy := by
  rw [policy, reading, given?]
  cases Assoc.get? setting.variableName environment with
  | none => rfl
  | some raw => by_cases hraw : raw = "" <;> simp [Option.filter, hraw, Setting.field]

lemma whitespace_eq_reading :
    environment.whitespace = environment.reading .whitespace .trim Validated.policy := by
  rw [whitespace, reading, given?, Setting.variableName]
  cases Assoc.get? "MDSLICE_WHITESPACE" environment <;> rfl

/-- The environment never gives a truth value for the whitespace policy. -/
lemma reading_whitespace :
    environment.reading .whitespace .trim WhitespacePolicy.ofJson = environment.whitespace := by
  rw [whitespace_eq_reading, reading, reading, given?]
  cases Assoc.get? Setting.whitespace.variableName environment <;> rfl

lemma switch_eq_reading (toggle : Switch) :
    .valid (environment.switch toggle.variableName) =
      environment.reading (.switch toggle) true Validated.bool := by
  rw [switch, reading, given?]
  cases Assoc.get? toggle.variableName environment <;> rfl

lemma optional_switch (environment : Environment) (settings : List Setting) (toggle : Switch)
    (h : .switch toggle ∈ settings) :
    (environment.fieldsOf settings).optional [toggle.field] true Validated.bool =
      .valid (environment.switch toggle.variableName) :=
  (optional_fieldsOf h true Validated.bool).trans (switch_eq_reading toggle).symm

/-! Either every reading succeeds, or the policies that are refused are told in order. -/

/-- What there is against the policy that the environment says for a setting. -/
def refusal? (environment : Environment) (setting : Setting) : Option Issue :=
  setting.policyClass?.bind fun policyClass =>
    (environment.given? setting).bind fun value =>
      match policyClass.normalize value with
      | .ok _ => none
      | .error error => some ⟨[.field setting.field], .policy error⟩

/-- What there is against the policies for categories, in the order of their fields. -/
def refusals (environment : Environment) : List Issue :=
  PolicySetting.all.filterMap fun setting => environment.refusal? (.policy setting)

/-- The policy for a setting; a refused one counts as none. -/
def choice {α : Type} [Vocabulary α] (environment : Environment) (setting : Setting)
    (default : α) : α :=
  match (environment.given? setting).map Vocabulary.ofJson with
  | some (.ok policy) => policy
  | _ => default

/-- The configuration that the environment asks for where nothing is refused. -/
def choices (environment : Environment) : Config where
  behavior :=
    { text := environment.choice (.policy .text) .truncate
      inlineCode := environment.choice (.policy .inlineCode) .truncate
      code := environment.choice (.policy .code) .truncate
      formatting := environment.choice (.policy .formatting) .preserve
      media := environment.choice (.policy .media) .preserve
      block := environment.choice (.policy .block) .include }
  text :=
    { whitespace := environment.choice .whitespace .trim
      mergeAdjacentText := environment.switch Switch.mergeAdjacentText.variableName }
  content := environment.content
  preserveEmptyBlocks := environment.switch Switch.preserveEmptyBlocks.variableName

lemma reading_eq_reporting {α : Type} [Vocabulary α] (environment : Environment)
    (setting : Setting) {policyClass : PolicyClass}
    (hsetting : setting.policyClass? = some policyClass)
    (hclass : ∀ value, policyClass.normalize value =
      (Vocabulary.ofJson value : Except PolicyError α).map Vocabulary.word) (default : α) :
    environment.reading setting default Validated.policy =
      .reporting (environment.refusal? setting).toList (environment.choice setting default) := by
  rw [reading, refusal?, choice, hsetting]
  cases environment.given? setting with
  | none => rfl
  | some value =>
    simp only [Option.bind_some, Option.map_some, hclass, Validated.policy]
    cases (Vocabulary.ofJson value : Except PolicyError α) <;> rfl

lemma behavior_eq_readings (environment : Environment) :
    environment.behavior = Behavior.mk
      <$> environment.reading (.policy .text) .truncate Validated.policy
      <*> environment.reading (.policy .inlineCode) .truncate Validated.policy
      <*> environment.reading (.policy .code) .truncate Validated.policy
      <*> environment.reading (.policy .formatting) .preserve Validated.policy
      <*> environment.reading (.policy .media) .preserve Validated.policy
      <*> environment.reading (.policy .block) .include Validated.policy
      <*> .valid [] := by
  simp only [← policy_eq_reading]
  rfl

lemma behavior_eq (environment : Environment) :
    environment.behavior = .reporting environment.refusals environment.choices.behavior := by
  have hleaf (setting : PolicySetting) (h : setting.policyClass = .leaf) (default : LeafPolicy) :=
    reading_eq_reporting environment (.policy setting) (congrArg some h) (fun _ => rfl) default
  rw [behavior_eq_readings, hleaf .text rfl, hleaf .inlineCode rfl, hleaf .code rfl,
    reading_eq_reporting environment (.policy .formatting) rfl (fun _ => rfl) _,
    reading_eq_reporting environment (.policy .media) rfl (fun _ => rfl) _,
    reading_eq_reporting environment (.policy .block) rfl (fun _ => rfl) _,
    Validated.valid_eq_reporting]
  simp only [Validated.map_reporting, Validated.seq_reporting, refusals, PolicySetting.all,
    List.filterMap_eq_flatMap_toList, List.flatMap_cons, List.flatMap_nil, List.append_assoc]
  rfl

lemma text_eq (environment : Environment) :
    environment.text =
      .reporting (environment.refusal? .whitespace).toList environment.choices.text := by
  rw [Environment.text, whitespace_eq_reading,
    reading_eq_reporting environment .whitespace rfl (fun _ => rfl) _]
  show _ <*> Validated.valid _ = _
  rw [Validated.valid_eq_reporting, Validated.map_reporting, Validated.seq_reporting,
    List.append_nil]
  rfl

end Environment

/-- Loading tells the refused policies for categories, or a refused whitespace policy if there are
none of those. -/
lemma Config.ofEnvironment_eq (environment : Environment) :
    ofEnvironment environment =
      if environment.refusals = [] then
        match environment.refusal? .whitespace with
        | none => .ok environment.choices
        | some issue => .error ⟨"TextCleanupConfig", [issue]⟩
      else .error ⟨"BehaviorConfig", environment.refusals⟩ := by
  rw [ofEnvironment, environment.behavior_eq, environment.text_eq, Validated.reporting]
  by_cases h : environment.refusals = []
  · rw [if_pos h, if_pos h]
    cases environment.refusal? .whitespace <;> rfl
  · rw [if_neg h, if_neg h]

namespace Environment

variable {environment : Environment}

lemma ofJson_behavior (environment : Environment) :
    Behavior.ofJson (.obj (environment.fieldsOf (PolicySetting.all.map .policy))) =
      environment.behavior := by
  have htypes : (environment.fieldsOf (PolicySetting.all.map .policy)).optional ["by_type"] []
      (fun value => .ofExcept (Override.listOfJson value)) = .valid [] := by
    rw [Fields.optional_singleton, get?_fieldsOf_of_ne (by decide)]
  have hmem (setting : PolicySetting) : .policy setting ∈ PolicySetting.all.map Setting.policy :=
    List.mem_map_of_mem setting.mem_all
  rw [Behavior.ofJson, Validated.model, Behavior.ofFields, htypes, noOthers_fieldsOf (by decide),
    Validated.seqLeft_valid_right, behavior_eq_readings]
  simp only [← optional_fieldsOf (hmem _)]
  rfl

lemma ofJson_text (environment : Environment) :
    TextCleanup.ofJson (.obj (environment.fieldsOf [.whitespace, .switch .mergeAdjacentText])) =
      environment.text := by
  have hwhitespace : Setting.whitespace ∈ [.whitespace, .switch .mergeAdjacentText] := by decide
  have hmerge := environment.optional_switch [.whitespace, .switch .mergeAdjacentText]
    .mergeAdjacentText (by decide)
  simp only [Switch.field] at hmerge
  rw [TextCleanup.ofJson, Validated.model, TextCleanup.ofFields, noOthers_fieldsOf (by decide),
    Validated.seqLeft_valid_right, hmerge, Environment.text, ← reading_whitespace,
    ← optional_fieldsOf hwhitespace]
  rfl

lemma ofJson_content (environment : Environment) :
    Inclusion.ofJson (.obj (environment.fieldsOf
      [.switch .html, .switch .definitions, .switch .footnoteDefinitions])) =
      .valid environment.content := by
  have hread := environment.optional_switch
    [.switch .html, .switch .definitions, .switch .footnoteDefinitions]
  have hhtml := hread .html (by decide)
  have hdefinitions := hread .definitions (by decide)
  have hfootnotes := hread .footnoteDefinitions (by decide)
  simp only [Switch.field] at hhtml hdefinitions hfootnotes
  rw [Inclusion.ofJson, Validated.model, Inclusion.ofFields, noOthers_fieldsOf (by decide), hhtml,
    hdefinitions, hfootnotes]
  rfl

/-- Read as an object, all that is said is told about at once. -/
lemma ofJson_request (environment : Environment) :
    Config.ofJson environment.request =
      .reporting
        (environment.refusals.map (Issue.within (.field "behavior")) ++
          (environment.refusal? .whitespace).toList.map (Issue.within (.field "text")))
        environment.choices := by
  have hknown : environment.requestFields.noOthers
      [["behavior"], ["text"], ["content"], ["preserve_empty_blocks"]] = .valid () := by
    refine Fields.noOthers_of_known ?_
    simp only [requestFields, List.forall_mem_cons]
    refine ⟨by decide, by decide, by decide, fun entry hm => ?_⟩
    obtain ⟨setting, hsetting, hname⟩ := exists_of_mem_fieldsOf hm
    obtain rfl := List.mem_singleton.mp hsetting
    rw [← hname]
    decide
  have hpreserve : environment.requestFields.optional ["preserve_empty_blocks"] true
      Validated.bool = .valid (environment.switch Switch.preserveEmptyBlocks.variableName) :=
    environment.optional_switch [.switch .preserveEmptyBlocks] .preserveEmptyBlocks (by decide)
  rw [request, Config.ofJson, Validated.model, Config.ofFields, hknown, hpreserve,
    Fields.optional_eq_within "behavior" rfl, ofJson_behavior,
    Fields.optional_eq_within "text" rfl, ofJson_text,
    Fields.optional_eq_within "content" rfl, ofJson_content,
    Validated.seqLeft_valid_right, behavior_eq, text_eq]
  simp only [Validated.within_reporting, Validated.valid_eq_reporting, Validated.map_reporting,
    Validated.seq_reporting, List.map_nil, List.append_nil]
  rfl

/-! Who has a say in what. -/

lemma given?_policy_eq_some_iff {setting : PolicySetting} {value : Json} :
    environment.given? (.policy setting) = some value ↔
      ∃ raw, Assoc.get? setting.variableName environment = some raw ∧ raw ≠ "" ∧
        value = .str raw := by
  rw [given?]
  cases Assoc.get? setting.variableName environment with
  | none => simp
  | some raw => by_cases hraw : raw = "" <;> simp [Option.filter, hraw, eq_comm]

lemma given?_whitespace_eq_some_iff {value : Json} :
    environment.given? .whitespace = some value ↔
      ∃ raw, Assoc.get? Setting.whitespace.variableName environment = some raw ∧
        value = .str raw := by
  rw [given?, Option.map_eq_some_iff]
  simp only [eq_comm]

lemma refusal?_eq_some_iff {setting : Setting} {policyClass : PolicyClass}
    (hsetting : setting.policyClass? = some policyClass) {issue : Issue} :
    environment.refusal? setting = some issue ↔
      ∃ value error, environment.given? setting = some value ∧
        policyClass.normalize value = .error error ∧
        issue = ⟨[.field setting.field], .policy error⟩ := by
  rw [refusal?, hsetting, Option.bind_some]
  cases environment.given? setting with
  | none => simp
  | some value =>
    cases hvalue : policyClass.normalize value <;> simp [hvalue, eq_comm]

lemma exists_whitespace_refusal_iff :
    (∃ issue, environment.refusal? .whitespace = some issue) ↔
      ∃ (raw : String) (error : PolicyError),
        Assoc.get? Setting.whitespace.variableName environment = some raw ∧
          PolicyClass.whitespace.normalize (.str raw) = .error error := by
  constructor
  · rintro ⟨issue, hissue⟩
    obtain ⟨value, error, hvalue, herror, -⟩ := (refusal?_eq_some_iff rfl).mp hissue
    obtain ⟨raw, hraw, rfl⟩ := given?_whitespace_eq_some_iff.mp hvalue
    exact ⟨raw, error, hraw, herror⟩
  · rintro ⟨raw, error, hraw, herror⟩
    exact ⟨_, (refusal?_eq_some_iff rfl).mpr
      ⟨_, error, given?_whitespace_eq_some_iff.mpr ⟨raw, hraw, rfl⟩, herror, rfl⟩⟩

lemma refusals_ne_nil_iff :
    environment.refusals ≠ [] ↔
      ∃ (setting : PolicySetting) (raw : String) (error : PolicyError),
        Assoc.get? setting.variableName environment = some raw ∧ raw ≠ "" ∧
          setting.policyClass.normalize (.str raw) = .error error := by
  rw [refusals, Ne, List.filterMap_eq_nil_iff]
  constructor
  · intro h
    simp only [not_forall] at h
    obtain ⟨setting, -, hsome⟩ := h
    obtain ⟨issue, hissue⟩ := Option.ne_none_iff_exists'.mp hsome
    obtain ⟨value, error, hvalue, herror, -⟩ := (refusal?_eq_some_iff rfl).mp hissue
    obtain ⟨raw, hraw, hne, rfl⟩ := given?_policy_eq_some_iff.mp hvalue
    exact ⟨setting, raw, error, hraw, hne, herror⟩
  · rintro ⟨setting, raw, error, hraw, hne, herror⟩ hnone
    have hsome : environment.refusal? (.policy setting) = _ := (refusal?_eq_some_iff rfl).mpr
      ⟨_, error, given?_policy_eq_some_iff.mpr ⟨raw, hraw, hne, rfl⟩, herror, rfl⟩
    rw [hnone setting setting.mem_all] at hsome
    exact nomatch hsome

variable {other : Environment} {setting : Setting}

lemma given?_congr (h : Assoc.get? setting.variableName other =
    Assoc.get? setting.variableName environment) :
    other.given? setting = environment.given? setting := by
  cases setting with
  | policy setting => simp only [given?, Setting.variableName] at h ⊢; rw [h]
  | whitespace => simp only [given?, h]
  | switch toggle => simp only [given?, Setting.variableName] at h ⊢; rw [h]

lemma choice_congr {α : Type} [Vocabulary α] (h : Assoc.get? setting.variableName other =
    Assoc.get? setting.variableName environment) (default : α) :
    other.choice setting default = environment.choice setting default := by
  rw [choice, given?_congr h]
  rfl

lemma switch_congr {toggle : Switch} (h : Assoc.get? toggle.variableName other =
    Assoc.get? toggle.variableName environment) :
    other.switch toggle.variableName = environment.switch toggle.variableName := by
  rw [switch, h]
  rfl

end Environment

namespace Config

/-- Two configurations have the same value in the field for a setting. -/
def SameAt (config other : Config) : Setting → Prop
  | .policy .text => config.behavior.text = other.behavior.text
  | .policy .inlineCode => config.behavior.inlineCode = other.behavior.inlineCode
  | .policy .code => config.behavior.code = other.behavior.code
  | .policy .formatting => config.behavior.formatting = other.behavior.formatting
  | .policy .media => config.behavior.media = other.behavior.media
  | .policy .block => config.behavior.block = other.behavior.block
  | .whitespace => config.text.whitespace = other.text.whitespace
  | .switch .mergeAdjacentText => config.text.mergeAdjacentText = other.text.mergeAdjacentText
  | .switch .html => config.content.html = other.content.html
  | .switch .definitions => config.content.definitions = other.content.definitions
  | .switch .footnoteDefinitions =>
    config.content.footnoteDefinitions = other.content.footnoteDefinitions
  | .switch .preserveEmptyBlocks => config.preserveEmptyBlocks = other.preserveEmptyBlocks

/-- Besides the fields for settings a configuration has its overrides only. -/
lemma eq_of_sameAt {config other : Config} (h : ∀ setting, config.SameAt other setting)
    (hoverrides : config.behavior.overrides = other.behavior.overrides) : config = other := by
  obtain ⟨⟨_, _, _, _, _, _, _⟩, ⟨_, _⟩, ⟨_, _, _⟩, _⟩ := config
  obtain ⟨⟨_, _, _, _, _, _, _⟩, ⟨_, _⟩, ⟨_, _, _⟩, _⟩ := other
  obtain rfl := h (.policy .text)
  obtain rfl := h (.policy .inlineCode)
  obtain rfl := h (.policy .code)
  obtain rfl := h (.policy .formatting)
  obtain rfl := h (.policy .media)
  obtain rfl := h (.policy .block)
  obtain rfl := h .whitespace
  obtain rfl := h (.switch .mergeAdjacentText)
  obtain rfl := h (.switch .html)
  obtain rfl := h (.switch .definitions)
  obtain rfl := h (.switch .footnoteDefinitions)
  obtain rfl := h (.switch .preserveEmptyBlocks)
  obtain rfl := hoverrides
  rfl

variable {environment other : Environment} {config : Config}

lemma sameAt_choices {setting : Setting} (h : Assoc.get? setting.variableName other =
    Assoc.get? setting.variableName environment) :
    other.choices.SameAt environment.choices setting := by
  cases setting with
  | policy setting => cases setting <;> exact Environment.choice_congr h _
  | whitespace => exact Environment.choice_congr h _
  | switch toggle =>
    have hswitch : other.switch toggle.variableName = _ := Environment.switch_congr h
    cases toggle <;> exact hswitch

lemma ofEnvironment_congr (h : ∀ setting : Setting, Assoc.get? setting.variableName other =
    Assoc.get? setting.variableName environment) :
    ofEnvironment other = ofEnvironment environment := by
  have hchoices : other.choices = environment.choices :=
    eq_of_sameAt (fun setting => sameAt_choices (h setting)) rfl
  have hrefusal (setting : Setting) : other.refusal? setting = environment.refusal? setting := by
    simp only [Environment.refusal?, Environment.given?_congr (h setting)]
  simp only [ofEnvironment_eq, hchoices, hrefusal, Environment.refusals]
  rfl

lemma ofEnvironment_eq_ok_iff :
    ofEnvironment environment = .ok config ↔
      environment.refusals = [] ∧ environment.refusal? .whitespace = none ∧
        environment.choices = config := by
  rw [ofEnvironment_eq]
  by_cases h : environment.refusals = []
  · cases environment.refusal? .whitespace <;> simp [h]
  · simp [h]

lemma ofEnvironment_eq_error_iff {error : EnvironmentError} :
    ofEnvironment environment = .error error ↔
      environment.refusals ≠ [] ∧ error = ⟨"BehaviorConfig", environment.refusals⟩ ∨
        environment.refusals = [] ∧ ∃ issue, environment.refusal? .whitespace = some issue ∧
          error = ⟨"TextCleanupConfig", [issue]⟩ := by
  rw [ofEnvironment_eq]
  by_cases h : environment.refusals = []
  · cases environment.refusal? .whitespace <;> simp [h, eq_comm]
  · simp [h, eq_comm]

lemma exists_error_iff :
    (∃ error, ofEnvironment environment = .error error) ↔
      environment.refusals ≠ [] ∨ ∃ issue, environment.refusal? .whitespace = some issue := by
  simp only [ofEnvironment_eq_error_iff]
  by_cases h : environment.refusals = [] <;> simp [h, exists_comm]

/-- Loading fails if a policy that is not empty, or the whitespace policy, is refused by its class;
it tells all refused policies for categories in the order of their fields, or else the whitespace
policy. Otherwise it gives what is read from the object that holds all that the environment says. If
one variable changes and both environments load, no field but its own changes, and no variable but
the twelve has any influence. -/
theorem ofEnvironment_by_settings (environment : Environment) :
    ((∃ error, ofEnvironment environment = .error error) ↔
      (∃ (setting : PolicySetting) (raw : String) (error : PolicyError),
        Assoc.get? setting.variableName environment = some raw ∧ raw ≠ "" ∧
          setting.policyClass.normalize (.str raw) = .error error) ∨
      ∃ (raw : String) (error : PolicyError),
        Assoc.get? Setting.whitespace.variableName environment = some raw ∧
          PolicyClass.whitespace.normalize (.str raw) = .error error) ∧
    (∀ error, ofEnvironment environment = .error error ↔
      environment.refusals ≠ [] ∧ error = ⟨"BehaviorConfig", environment.refusals⟩ ∨
        environment.refusals = [] ∧ ∃ issue, environment.refusal? .whitespace = some issue ∧
          error = ⟨"TextCleanupConfig", [issue]⟩) ∧
    (∀ config, ofEnvironment environment = .ok config ↔
      ofJson environment.request = .valid config) ∧
    (∀ (other : Environment) (changed : Setting) (config next : Config),
      (∀ name, name ≠ changed.variableName →
        Assoc.get? name other = Assoc.get? name environment) →
      ofEnvironment environment = .ok config → ofEnvironment other = .ok next →
        next.behavior.overrides = config.behavior.overrides ∧
          ∀ setting, setting ≠ changed → next.SameAt config setting) ∧
    ∀ other : Environment,
      (∀ setting : Setting, Assoc.get? setting.variableName other =
        Assoc.get? setting.variableName environment) →
      ofEnvironment other = ofEnvironment environment := by
  refine ⟨?_, fun error => ofEnvironment_eq_error_iff, fun config => ?_, ?_,
    fun other h => ofEnvironment_congr h⟩
  · rw [← Environment.refusals_ne_nil_iff, ← Environment.exists_whitespace_refusal_iff]
    exact exists_error_iff
  · rw [ofEnvironment_eq_ok_iff, Environment.ofJson_request, Validated.reporting_eq_valid_iff]
    simp [and_assoc]
  · intro other changed config next hothers hconfig hnext
    obtain ⟨-, -, rfl⟩ := ofEnvironment_eq_ok_iff.mp hconfig
    obtain ⟨-, -, rfl⟩ := ofEnvironment_eq_ok_iff.mp hnext
    refine ⟨rfl, fun setting hne => sameAt_choices (hothers _ ?_)⟩
    exact fun h => hne (Setting.variableName_injective h)

/-- An older word, and a policy with a blank before it. -/
def looseEnvironment : Environment :=
  [("MDSLICE_MEDIA_POLICY", "Trim"), ("MDSLICE_WHITESPACE", " preserve")]

/-- The same with one variable empty. -/
def emptiedEnvironment : Environment :=
  Assoc.set (Setting.policy .media).variableName "" looseEnvironment

theorem ofEnvironment_by_settings_emptied :
    ∃ config next,
      ofEnvironment looseEnvironment = .ok config ∧ ofEnvironment emptiedEnvironment = .ok next ∧
        config.behavior.media = .contentOnly ∧ next.behavior.media = .preserve ∧
        ∀ setting, setting ≠ .policy .media → next.SameAt config setting := by
  have hloose : ofEnvironment looseEnvironment =
      .ok { behavior := { media := .contentOnly }, text := { whitespace := .preserve } } := by
    decide +kernel
  have hemptied : ofEnvironment emptiedEnvironment =
      .ok { text := { whitespace := .preserve } } := by
    decide +kernel
  have hothers (name : String) (hname : name ≠ (Setting.policy .media).variableName) :
      Assoc.get? name emptiedEnvironment = Assoc.get? name looseEnvironment := by
    rw [emptiedEnvironment, Assoc.get?_set, if_neg (Ne.symm hname)]
  obtain ⟨-, -, -, hchange, -⟩ := ofEnvironment_by_settings looseEnvironment
  exact ⟨_, _, hloose, hemptied, rfl, rfl, (hchange _ _ _ _ hothers hloose hemptied).2⟩

end Config
end MarkdownExcerpt
