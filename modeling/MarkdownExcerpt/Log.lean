/-! What is noted while trees are measured and cut. -/

namespace MarkdownExcerpt

inductive LogEntry where
  /-- A leaf of a type whose value is document text has a value of another kind. -/
  | valueNotText (type kind : String)
  | startBeyondEnd (start length : Nat)
  | sliced (start stop length slicedLength partialNodes : Nat) (modifiedTypes : List String)
  deriving DecidableEq, Repr

inductive LogLevel where
  | warning | debug
  deriving DecidableEq, Repr

def LogLevel.name : LogLevel → String
  | warning => "WARNING"
  | debug => "DEBUG"

namespace LogEntry

def level : LogEntry → LogLevel
  | valueNotText _ _ => .warning
  | startBeyondEnd _ _ => .debug
  | sliced .. => .debug

def quotedList (words : List String) : String :=
  "[" ++ ", ".intercalate (words.map fun word => "'" ++ word ++ "'") ++ "]"

def message : LogEntry → String
  | valueNotText type kind =>
    "Node of type " ++ type ++ " has non-string value '" ++ kind ++ "'; treating as empty"
  | startBeyondEnd start length =>
    "Slice start " ++ toString start ++ " is beyond document length " ++ toString length
  | sliced start stop length slicedLength partialNodes modifiedTypes =>
    "Sliced [" ++ toString start ++ ", " ++ toString stop ++ ") of " ++ toString length ++
      " characters into " ++ toString slicedLength ++ " characters (" ++ toString partialNodes ++
      " partial nodes, modified types: " ++ quotedList modifiedTypes ++ ")"

end LogEntry
end MarkdownExcerpt
