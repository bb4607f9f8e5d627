import ShellDecl.Json.Decoder
import ShellDecl.Settings.Shape

/-!
# The settings store

The settings of a server while it runs. Each step answers with the settings as they stand after it; one that fails
leaves them as they were.
-/

set_option autoImplicit false

namespace ShellDecl

structure SettingsError where
  fault : Json.Fault
  deriving Repr

def SettingsError.message (e : SettingsError) : String :=
  "Invalid settings payload: " ++ e.fault.message

namespace ServerSettings

def ofNotice (text : String) : Except SettingsError (Option ServerSettings) :=
  match Json.Decoder.ofText (SettingsNotice.decode Json.format) text with
  | .ok notice => .ok notice.server
  | .error f => .error ⟨f⟩

def notify (s : ServerSettings) (text : String) : Except SettingsError ServerSettings :=
  (ofNotice text).map s.update

inductive Step where
  | snapshot
  | apply (new : Option ServerSettings)
  | notify (text : String)
  deriving Repr

def answer (s : ServerSettings) : Step → Except SettingsError ServerSettings
  | .snapshot => .ok s
  | .apply new => .ok (s.update new)
  | .notify text => s.notify text

def after (s : ServerSettings) (step : Step) : ServerSettings :=
  match s.answer step with
  | .ok new => new
  | .error _ => s

/-- The answers to a run of steps, and the settings that are stored after it. -/
def run (s : ServerSettings) : List Step → List (Except SettingsError ServerSettings) × ServerSettings
  | [] => ([], s)
  | step :: steps =>
    let (answers, last) := (s.after step).run steps
    (s.answer step :: answers, last)

end ServerSettings

end ShellDecl
