import ShellDecl.Config
import ShellDecl.Json.Value
import ShellDecl.Script
import ShellDecl.Symbol

/-!
# Written forms

Each type is written as an object with its fields in order. A tree node is written as its extent and a tagged shape;
a label that is absent is left out. An absent setting is written as null.
-/

set_option autoImplicit false

namespace ShellDecl

def Extent.toJson (e : Extent) : Json :=
  .obj [
    ("start_line", .nat e.start.line),
    ("start_column", .nat e.start.column),
    ("end_line", .nat e.stop.line),
    ("end_column", .nat e.stop.column),
    ("text", .str e.text)]

def Symbol.toJson (s : Symbol) : Json :=
  .obj [
    ("kind", .str s.kind.name),
    ("extent", s.extent.toJson),
    ("display_name", .str s.displayName)]

namespace Script

mutual

def toJson : Script → Json
  | .function e name body =>
    .obj [
      ("extent", e.toJson),
      ("node", .obj [
        ("type", .str "function_definition"),
        ("name", .str name),
        ("body", .arr (toJsonAll body))])]
  | .variableName e =>
    .obj [("extent", e.toJson), ("node", .obj [("type", .str "variable_expression")])]
  | .other e none children =>
    .obj [
      ("extent", e.toJson),
      ("node", .obj [("type", .str "other"), ("children", .arr (toJsonAll children))])]
  | .other e (some label) children =>
    .obj [
      ("extent", e.toJson),
      ("node", .obj [
        ("type", .str "other"),
        ("label", .str label),
        ("children", .arr (toJsonAll children))])]

def toJsonAll : List Script → List Json
  | [] => []
  | t :: ts => toJson t :: toJsonAll ts

end

end Script

def Json.optional {α : Type} (write : α → Json) : Option α → Json
  | some a => write a
  | none => .null

def AnalysisSettings.toJson (s : AnalysisSettings) : Json :=
  .obj [("enabled", Json.optional .bool s.enabled), ("settingsPath", Json.optional .str s.settingsPath)]

def ServerSettings.toJson (s : ServerSettings) : Json :=
  .obj [("analysis", s.analysis.toJson)]

def SettingsNotice.toJson (n : SettingsNotice) : Json :=
  .obj [("Powershell", Json.optional ServerSettings.toJson n.server)]

def ParserConfig.toJson (c : ParserConfig) : Json :=
  .obj [("max_file_size_mb", .nat c.maxFileSizeMb.toNat)]

def OutputConfig.toJson (c : OutputConfig) : Json :=
  .obj [("format", .str c.format)]

def Config.toJson (c : Config) : Json :=
  .obj [("parser", c.parser.toJson), ("output", c.output.toJson), ("settings", c.settings.toJson)]

end ShellDecl
