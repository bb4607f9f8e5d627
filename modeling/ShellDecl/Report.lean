import ShellDecl.Declaration
import ShellDecl.Json.Encode
import ShellDecl.Settings

/-!
# Reports

What a run says: an occurrence of a symbol in one flat object, the answer to a lookup, the settings. An optional
part that is absent is left out.
-/

set_option autoImplicit false

namespace ShellDecl

structure SymbolReport where
  kind : SymbolKind
  name : String
  file : String
  start : Position
  stop : Position
  deriving DecidableEq, Repr

namespace SymbolReport

def ofSymbol (s : Symbol) (file : String) : SymbolReport :=
  ⟨s.kind, s.name, file, s.extent.start, s.extent.stop⟩

def toJson (r : SymbolReport) : Json :=
  .obj [
    ("kind", .str r.kind.name),
    ("name", .str r.name),
    ("file", .str r.file),
    ("line", .nat r.start.line),
    ("column", .nat r.start.column),
    ("end_line", .nat r.stop.line),
    ("end_column", .nat r.stop.column)]

end SymbolReport

def Json.member {α : Type} (key : String) (write : α → Json) : Option α → List (String × Json)
  | some a => [(key, write a)]
  | none => []

structure DeclarationReport where
  symbol : Option SymbolReport
  declaration : Option SymbolReport
  message : Option String
  deriving DecidableEq, Repr

def DeclarationReport.found (r : DeclarationReport) : Bool :=
  r.declaration.isSome

def DeclarationReport.members (r : DeclarationReport) : List (String × Json) :=
  Json.member "symbol" SymbolReport.toJson r.symbol
    ++ [("found", .bool r.found)]
    ++ Json.member "declaration" SymbolReport.toJson r.declaration
    ++ Json.member "message" Json.str r.message

def ServerSettings.members (s : ServerSettings) : List (String × Json) :=
  [("enabled", .bool s.analysis.isEnabled)]
    ++ Json.member "settings_path" Json.str s.analysis.settingsPath
    ++ [("settings", s.toJson)]

end ShellDecl
