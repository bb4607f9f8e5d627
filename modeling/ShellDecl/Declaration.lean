import ShellDecl.Script
import ShellDecl.Symbol
import ShellDecl.Text.Occurrence

/-!
# Declarations

The first node in document order that declares the queried symbol answers a lookup. Matching is by text alone:
a function by its declared name against the text of the query, a variable by its text against the display name of
the query. A function whose name is not in its own text ends the search with an error, whatever is asked for.
-/

set_option autoImplicit false

namespace ShellDecl

inductive FinderError where
  | nameNotInExtent (name : String) (extent : Extent)
  deriving DecidableEq, Repr

def FinderError.message : FinderError → String
  | .nameNotInExtent name extent =>
    "Malformed syntax tree: function '" ++ name ++ "' does not occur in its own extent " ++ extent.display

/-- Where a name stands in a node: at its leftmost occurrence in the text of the node. -/
def nameExtent (node : Script) (name : String) : Except FinderError Extent :=
  let e := node.extent
  if name.isEmpty then .error (.nameNotInExtent name e)
  else
    match Text.indexOf? name.toList e.text.toList with
    | none => .error (.nameNotInExtent name e)
    | some i =>
      let place := (e.start.endOf (e.text.toList.take i)).wrap
      .ok (Extent.onLine place.line place.column ((place.column + name.length) % UInt32.size) name)

/-- The visitor that stops at the first declaration of `query` and at the first malformed function. -/
def finder (query : Symbol) : Script.Visitor (Except FinderError Symbol) where
  onFunction node name :=
    match nameExtent node name with
    | .error e => .stop (.error e)
    | .ok found =>
      if query.kind = .function ∧ found.text = query.extent.text then
        .stop (.ok ⟨.function, found, ""⟩)
      else .proceed
  onVariable node :=
    if query.kind = .var ∧ node.extent.text = query.displayName then
      .stop (.ok ⟨.var, node.extent, ""⟩)
    else .proceed

def findDeclaration (root : Script) (query : Symbol) : Except FinderError (Option Symbol) :=
  match root.walk (finder query) with
  | none => .ok none
  | some (.ok found) => .ok (some found)
  | some (.error e) => .error e

end ShellDecl
