import ShellDecl.Config
import ShellDecl.Record

/-!
# The shapes of settings and configurations

Every field may be left out. An absent section has its default, while an absent field inside a section that is present
can mean something else: analysis settings without `enabled` leave it open.
-/

set_option autoImplicit false

namespace ShellDecl

variable {δ ε : Type}

namespace AnalysisSettings

structure Gathered where
  enabled : Option (Option Bool) := none
  settingsPath : Option (Option String) := none

def shape (f : Format δ ε) : Shape Gathered AnalysisSettings δ ε where
  expected := "struct ScriptAnalysisSettings"
  fields := [
    .defaulted ["enabled", "enable"] Gathered.enabled (fun b s => { s with enabled := some b })
      (f.optional f.boolean),
    .defaulted ["settingsPath"] Gathered.settingsPath (fun t s => { s with settingsPath := some t })
      (f.optional f.string)]
  empty := {}
  finish s := .ok ⟨s.enabled.getD none, s.settingsPath.getD none⟩

def decode (f : Format δ ε) : δ → Except ε AnalysisSettings :=
  f.record (shape f)

end AnalysisSettings

namespace ServerSettings

structure Gathered where
  analysis : Option AnalysisSettings := none

def shape (f : Format δ ε) : Shape Gathered ServerSettings δ ε where
  expected := "struct LanguageServerSettings"
  fields := [
    .defaulted ["analysis", "scriptAnalysis"] Gathered.analysis (fun a s => { s with analysis := some a })
      (AnalysisSettings.decode f)]
  empty := {}
  finish s := .ok ⟨s.analysis.getD {}⟩

def decode (f : Format δ ε) : δ → Except ε ServerSettings :=
  f.record (shape f)

end ServerSettings

namespace SettingsNotice

structure Gathered where
  server : Option (Option ServerSettings) := none

def shape (f : Format δ ε) : Shape Gathered SettingsNotice δ ε where
  expected := "struct SettingsWrapper"
  fields := [
    .defaulted ["Powershell", "powershell"] Gathered.server (fun s n => { n with server := some s })
      (f.optional (ServerSettings.decode f))]
  empty := {}
  finish n := .ok ⟨n.server.getD none⟩

def decode (f : Format δ ε) : δ → Except ε SettingsNotice :=
  f.record (shape f)

end SettingsNotice

namespace ParserConfig

structure Gathered where
  maxFileSizeMb : Option Nat := none

def shape (f : Format δ ε) : Shape Gathered ParserConfig δ ε where
  expected := "struct ParserConfig"
  fields := [
    .defaulted ["max_file_size_mb"] Gathered.maxFileSizeMb (fun n s => { s with maxFileSizeMb := some n }) f.word]
  empty := {}
  finish s := .ok (match s.maxFileSizeMb with | some n => ⟨n.toUInt32⟩ | none => {})

def decode (f : Format δ ε) : δ → Except ε ParserConfig :=
  f.record (shape f)

end ParserConfig

namespace OutputConfig

structure Gathered where
  format : Option String := none

def shape (f : Format δ ε) : Shape Gathered OutputConfig δ ε where
  expected := "struct OutputConfig"
  fields := [
    .defaulted ["format"] Gathered.format (fun t s => { s with format := some t }) f.string]
  empty := {}
  finish s := .ok (match s.format with | some t => ⟨t⟩ | none => {})

def decode (f : Format δ ε) : δ → Except ε OutputConfig :=
  f.record (shape f)

end OutputConfig

structure Config.Gathered where
  parser : Option ParserConfig := none
  output : Option OutputConfig := none
  settings : Option ServerSettings := none

namespace Config

def fields (f : Format δ ε) : List (Field Gathered δ ε) := [
  .defaulted ["parser"] Gathered.parser (fun p s => { s with parser := some p }) (ParserConfig.decode f),
  .defaulted ["output"] Gathered.output (fun o s => { s with output := some o }) (OutputConfig.decode f),
  .defaulted ["settings"] Gathered.settings (fun v s => { s with settings := some v }) (ServerSettings.decode f)]

def shape (f : Format δ ε) : Shape Gathered Config δ ε where
  expected := "struct ScriptnavConfig"
  fields := fields f
  empty := {}
  finish s := .ok ⟨s.parser.getD {}, s.output.getD {}, s.settings.getD {}⟩

def decode (f : Format δ ε) : δ → Except ε Config :=
  f.record (shape f)

end Config

namespace ConfigLayer

/-- A layer has the sections of a configuration and keeps apart which of them are there. -/
def shape (f : Format δ ε) : Shape Config.Gathered ConfigLayer δ ε where
  expected := "struct ConfigOverlay"
  fields := Config.fields f
  empty := {}
  finish s := .ok ⟨s.parser, s.output, s.settings⟩

def decode (f : Format δ ε) : δ → Except ε ConfigLayer :=
  f.record (shape f)

end ConfigLayer

end ShellDecl
