/-!
# Settings

What an editor can set while it works with the language server. An update takes the place of the analysis settings as
a whole: what it leaves out is not kept.
-/

set_option autoImplicit false

namespace ShellDecl

/-- `enabled` is absent where the editor sent no value; analysis then counts as enabled. -/
structure AnalysisSettings where
  enabled : Option Bool := some true
  settingsPath : Option String := none
  deriving DecidableEq, Repr

namespace AnalysisSettings

def isEnabled (s : AnalysisSettings) : Bool :=
  s.enabled.getD true

/-- Both fields are replaced, also by absent ones. -/
def update (s : AnalysisSettings) : Option AnalysisSettings → AnalysisSettings
  | some new => { s with enabled := new.enabled, settingsPath := new.settingsPath }
  | none => s

end AnalysisSettings

structure ServerSettings where
  analysis : AnalysisSettings := {}
  deriving DecidableEq, Repr

def ServerSettings.update (s : ServerSettings) : Option ServerSettings → ServerSettings
  | some new => { s with analysis := s.analysis.update (some new.analysis) }
  | none => s

/-- The body of a notice that settings have changed. It may leave out the section that concerns the server. -/
structure SettingsNotice where
  server : Option ServerSettings := none
  deriving DecidableEq, Repr

end ShellDecl
