import ShellDecl.Json.Value

/-!
# Output formats

Answers are JSON objects with their keys in order, over several lines or on one.
-/

set_option autoImplicit false

namespace ShellDecl

inductive OutputFormat where
  | json
  | compact
  deriving DecidableEq, Repr

namespace OutputFormat

/-- Reads the name of a format in any case of its letters. -/
def ofText? (text : String) : Option OutputFormat :=
  match String.ofList (text.toList.map Char.toLower) with
  | "json" | "pretty" => some .json
  | "compact" | "jsonl" => some .compact
  | _ => none

def unknownMessage (text : String) : String :=
  "Unknown output format: " ++ text ++ " (expected json or compact)"

def render (f : OutputFormat) (answer : Json) : String :=
  match f with
  | .json => answer.sorted.pretty
  | .compact => answer.sorted.compact

end OutputFormat

end ShellDecl
