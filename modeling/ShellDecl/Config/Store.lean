import ShellDecl.Host
import ShellDecl.Path
import ShellDecl.Settings.Shape
import ShellDecl.Text.Word
import ShellDecl.Toml.Decoder
import ShellDecl.Toml.Written

/-!
# Stored configuration

A configuration is layered. At the bottom are the defaults, then a file for all projects, then a file of the project,
whose sections replace whole sections, and at the top the environment, which sets single fields. Files are made with
the defaults in them, and one that is there is kept unless it is asked for by force.
-/

set_option autoImplicit false

namespace ShellDecl

inductive ConfigLevel where
  | project
  | shared
  deriving DecidableEq, Repr

structure ConfigPlaces where
  project : String
  shared : String
  deriving DecidableEq, Repr

namespace ConfigPlaces

def directory (p : ConfigPlaces) : ConfigLevel → String
  | .project => p.project
  | .shared => p.shared

def path (p : ConfigPlaces) (level : ConfigLevel) : String :=
  Path.join (p.directory level) "config.toml"

def ofRoot (root : String) : String :=
  Path.join root ".scriptnav"

end ConfigPlaces

inductive ConfigError where
  | file (e : FileError)
  | toml (path text : String) (e : Toml.Error)
  | alreadyThere (path : String)
  deriving Repr

def ConfigError.message : ConfigError → String
  | .file e => e.message
  | .toml path text e => "Config parse error: " ++ path ++ ": " ++ e.message text
  | .alreadyThere path =>
    "Invalid value for 'config': Config already exists: " ++ path ++ ". Use --force to overwrite."

namespace Config

def formatVariable : String := "SCRIPTNAV_OUTPUT_FORMAT"

def sizeVariable : String := "SCRIPTNAV_MAX_FILE_SIZE_MB"

/-- The environment has the last word. A size that is no number is ignored, a format is taken as it is. -/
def override (c : Config) (format size : Option String) : Config where
  parser :=
    match size.bind fun text => Text.word? text.toList with
    | some n => ⟨n.toUInt32⟩
    | none => c.parser
  output :=
    match format with
    | some text => ⟨text⟩
    | none => c.output
  settings := c.settings

variable {m : Type → Type} [Monad m]

def readLayer {α : Type} (h : Host m) (decode : Toml.Decoder α) (path : String) :
    ExceptT ConfigError m (Option α) := do
  if ← h.isThere path then
    let text ← (h.read path).adapt .file
    match decode.ofText text with
    | .ok layer => return some layer
    | .error e => throw (.toml path text e)
  else return none

def loadShared (h : Host m) (places : ConfigPlaces) : ExceptT ConfigError m Config := do
  return (← readLayer h (Config.decode Toml.format) (places.path .shared)).getD {}

def loadProject (h : Host m) (places : ConfigPlaces) : ExceptT ConfigError m Config := do
  let base ← loadShared h places
  let layer ← readLayer h (ConfigLayer.decode Toml.format) (places.path .project)
  let format ← h.environment formatVariable
  let size ← h.environment sizeVariable
  return (base.overlay (layer.getD {})).override format size

def load (h : Host m) (places : ConfigPlaces) : ConfigLevel → ExceptT ConfigError m Config
  | .project => loadProject h places
  | .shared => loadShared h places

def create (h : Host m) (places : ConfigPlaces) (level : ConfigLevel) (force : Bool) :
    ExceptT ConfigError m String := do
  let path := places.path level
  if (← h.isThere path) && !force then throw (.alreadyThere path)
  (h.makeDirectories (places.directory level)).adapt .file
  (h.write path (Toml.written {})).adapt .file
  return path

end Config

end ShellDecl
