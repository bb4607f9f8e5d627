import ShellDecl.Extent

/-!
# Symbols

A symbol is one named occurrence in a script: the query of a lookup, or the declaration that answers it.
-/

set_option autoImplicit false

namespace ShellDecl

inductive SymbolKind where
  | function
  | var
  | parameter
  | classType
  | enum
  | property
  deriving DecidableEq, Repr

namespace SymbolKind

def name : SymbolKind → String
  | .function => "function"
  | .var => "variable"
  | .parameter => "parameter"
  | .classType => "class"
  | .enum => "enum"
  | .property => "property"

def all : List SymbolKind :=
  [.function, .var, .parameter, .classType, .enum, .property]

def allNames : List String :=
  all.map name

/-- Reads the name of a kind, or a short form of it, in any case of its letters. Names are ASCII, and no letter
outside ASCII has one of theirs as its small letter, so folding ASCII is folding enough. -/
def ofText? (text : String) : Option SymbolKind :=
  match String.ofList (text.toList.map Char.toLower) with
  | "function" | "fn" => some .function
  | "variable" | "var" => some .var
  | "parameter" | "param" => some .parameter
  | "class" => some .classType
  | "enum" => some .enum
  | "property" => some .property
  | _ => none

def unknownMessage (text : String) : String :=
  "Unknown symbol kind: " ++ text ++ ". Expected one of: " ++ String.intercalate ", " allNames

end SymbolKind

structure Symbol where
  kind : SymbolKind
  extent : Extent
  displayName : String
  deriving DecidableEq, Repr

namespace Symbol

/-- A query by name alone stands at the first place of a text that is just the name. -/
def named (kind : SymbolKind) (name : String) : Symbol :=
  ⟨kind, Extent.ofText ⟨1, 1⟩ name, name⟩

def same (a b : Symbol) : Bool :=
  a.kind == b.kind && a.extent.text == b.extent.text

def name (s : Symbol) : String :=
  if s.displayName.isEmpty then s.extent.text else s.displayName

def display (s : Symbol) : String :=
  s.kind.name ++ " " ++ s.name ++ " @ " ++ s.extent.display

end Symbol

end ShellDecl
