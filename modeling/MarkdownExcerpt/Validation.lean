import MarkdownExcerpt.Policy.Vocabulary

/-! Reading values that must have a shape. A reading that fails lists every issue that it finds,
each with its cause and the place where it is. -/

namespace MarkdownExcerpt

/-- One step from a value to a value inside it. -/
inductive Place where
  | field (name : String)
  | item (index : Nat)
  deriving DecidableEq, Repr

/-- Why a value is refused. -/
inductive Cause where
  | policy (error : PolicyError)
  | overridesNotMapping
  | notConfigurable (type : String)
  | unknownField
  | notModel (model : String)
  | notBool
  | unreadableBool
  | notInteger
  | unreadableInteger
  | oversizedInteger
  | fractionalInteger
  | negative
  | missing
  | notObject
  | notList
  | notText
  | frozen
  deriving DecidableEq, Repr

namespace Cause

/-- The short word for a cause. -/
def code : Cause → String
  | policy _ => "value_error"
  | overridesNotMapping => "value_error"
  | notConfigurable _ => "value_error"
  | unknownField => "extra_forbidden"
  | notModel _ => "model_type"
  | notBool => "bool_type"
  | unreadableBool => "bool_parsing"
  | notInteger => "int_type"
  | unreadableInteger => "int_parsing"
  | oversizedInteger => "int_parsing_size"
  | fractionalInteger => "int_from_float"
  | negative => "greater_than_equal"
  | missing => "missing"
  | notObject => "dict_type"
  | notList => "list_type"
  | notText => "string_type"
  | frozen => "frozen_instance"

def message : Cause → String
  | policy error => "Value error, " ++ error.message
  | overridesNotMapping => "Value error, by_type must be a mapping of node type to policy"
  | notConfigurable type =>
    "Value error, Node type '" ++ type ++ "' has no configurable partial behavior"
  | unknownField => "Extra inputs are not permitted"
  | notModel model => "Input should be a valid dictionary or instance of " ++ model
  | notBool => "Input should be a valid boolean"
  | unreadableBool => "Input should be a valid boolean, unable to interpret input"
  | notInteger => "Input should be a valid integer"
  | unreadableInteger =>
    "Input should be a valid integer, unable to parse string as an integer"
  | oversizedInteger => "Unable to parse input string as an integer, exceeded maximum size"
  | fractionalInteger =>
    "Input should be a valid integer, got a number with a fractional part"
  | negative => "Input should be greater than or equal to 0"
  | missing => "Field required"
  | notObject => "Input should be a valid dictionary"
  | notList => "Input should be a valid list"
  | notText => "Input should be a valid string"
  | frozen => "Instance is frozen"

end Cause

structure Issue where
  location : List Place
  cause : Cause
  deriving DecidableEq, Repr

/-- A value, or all the issues that stand against it. -/
inductive Validated (α : Type) where
  | valid (value : α)
  | invalid (issues : List Issue)
  deriving DecidableEq, Repr

namespace Validated

variable {α β : Type}

def issues : Validated α → List Issue
  | valid _ => []
  | invalid issues => issues

/-- Both sides are read, and the issues of both are kept. -/
def apply : Validated (α → β) → Validated α → Validated β
  | valid f, valid value => valid (f value)
  | valid _, invalid issues => invalid issues
  | invalid issues, valid _ => invalid issues
  | invalid first, invalid second => invalid (first ++ second)

instance : Applicative Validated where
  pure := valid
  seq f value := apply f (value ())

def refuse (cause : Cause) : Validated α := invalid [⟨[], cause⟩]

/-- What was read at a place inside the value at hand. -/
def within (place : Place) : Validated α → Validated α
  | valid value => valid value
  | invalid issues => invalid (issues.map fun i => { i with location := place :: i.location })

def ofExcept : Except Cause α → Validated α
  | .ok value => valid value
  | .error cause => refuse cause

@[simp] theorem pure_seq_valid (f : α → β) (value : α) :
    (pure f : Validated (α → β)) <*> valid value = valid (f value) := rfl

end Validated

/-! Objects with a fixed set of fields. -/

namespace Fields

/-- A field under the first of its names that the object has. -/
def pick? (names : List String) (fields : Fields) : Option (String × Json) :=
  names.findSome? fun name => (Assoc.get? name fields).map fun value => (name, value)

/-- The reading of a field that may be absent, in which case it has a default. -/
def optional {α : Type} (fields : Fields) (names : List String) (default : α)
    (read : Json → Validated α) : Validated α :=
  match pick? names fields with
  | none => .valid default
  | some (name, value) => (read value).within (.field name)

/-- The reading of a field that must be there. -/
def required {α : Type} (fields : Fields) (name : String)
    (read : Json → Validated α) : Validated α :=
  match Assoc.get? name fields with
  | none => .invalid [⟨[.field name], .missing⟩]
  | some value => (read value).within (.field name)

/-- Refuses every field that is not the one under which some known field was found. -/
def noOthers (fields : Fields) (known : List (List String)) : Validated Unit :=
  let used := known.filterMap fun names => (pick? names fields).map (·.1)
  match fields.filter fun entry => !used.contains entry.1 with
  | [] => .valid ()
  | others => .invalid (others.map fun entry => ⟨[.field entry.1], .unknownField⟩)

end Fields

/-- The reading of an object of the named model. -/
def Validated.model {α : Type} (name : String) (read : Fields → Validated α) :
    Json → Validated α
  | .obj fields => read fields
  | _ => refuse (.notModel name)

end MarkdownExcerpt
