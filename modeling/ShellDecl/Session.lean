import ShellDecl.Invocation
import ShellDecl.Json.Encode
import ShellDecl.Location
import ShellDecl.Lookup
import ShellDecl.OsPath
import ShellDecl.Output
import ShellDecl.Report
import ShellDecl.Settings.Store

/-!
# Sessions

A session is what a run works with: the current directory, the places of the configuration files, the configuration
and the format of answers. A configuration that cannot be loaded is replaced by the defaults, without the environment.

An answer is a success or a refusal, in the format of the session. What keeps a run from answering is a failure; it is
written over several lines whatever the format is, and it alone is seen in the exit code.
-/

set_option autoImplicit false

namespace ShellDecl

structure Session where
  root : String
  places : ConfigPlaces
  config : Config
  format : OutputFormat
  deriving Repr

inductive Answer where
  | success (members : List (String × Json))
  | refusal (message : String)
  deriving Repr

def Answer.toJson : Answer → Json
  | .success members => .obj (members ++ [("success", .bool true)])
  | .refusal message => .obj [("success", .bool false), ("error", .str message)]

/-- What a run leaves behind: an exit code, and the object that it prints in a format. -/
structure Outcome where
  exitCode : Nat
  format : OutputFormat
  printed : Json
  deriving Repr

namespace Outcome

def answered (format : OutputFormat) (a : Answer) : Outcome :=
  ⟨0, format, a.toJson⟩

def failed (message : String) : Outcome :=
  ⟨1, .json, (Answer.refusal message).toJson⟩

def text (o : Outcome) : String :=
  o.format.render o.printed ++ "\n"

end Outcome

namespace ConfigPlaces

/-- The file for all projects is in the configuration directory of the user. -/
def ofEnvironment (root : String) (configHome home : Option String) : ConfigPlaces where
  project := ofRoot root
  shared :=
    let base :=
      match configHome, home with
      | some directory, _ => directory
      | none, some home => Path.join home ".config"
      | none, none => "."
    Path.join base "scriptnav"

end ConfigPlaces

namespace Session

variable {m : Type → Type} [Monad m]

def start (h : Host m) : m Session := do
  let root ← h.currentDirectory
  let configHome ← h.environment "XDG_CONFIG_HOME"
  let home ← h.environment "HOME"
  let places := ConfigPlaces.ofEnvironment root configHome (home.filter (!·.isEmpty))
  let config ←
    match ← (Config.load h places .project).run with
    | .ok config => pure config
    | .error _ => pure {}
  return ⟨root, places, config, (OutputFormat.ofText? config.output.format).getD .json⟩

def limit (s : Session) : Nat :=
  s.config.parser.maxFileSizeBytes

def shown (s : Session) (path : String) : String :=
  Path.relative s.root path

end Session

namespace DeclarationReport

def ofLookup (l : Lookup) (file : String) (line column : Nat) : DeclarationReport where
  symbol := l.query.map (SymbolReport.ofSymbol · file)
  declaration := l.declaration.map (SymbolReport.ofSymbol · file)
  message :=
    match l.query, l.declaration with
    | none, _ => some ("No symbol at " ++ file ++ ":" ++ toString line ++ ":" ++ toString column)
    | some query, none => some ("No declaration of " ++ query.name ++ " in " ++ file)
    | some _, some _ => none

def ofDeclaration (declaration : Option Symbol) (kind : SymbolKind) (name file : String) : DeclarationReport where
  symbol := none
  declaration := declaration.map (SymbolReport.ofSymbol · file)
  message :=
    match declaration with
    | none => some ("No " ++ kind.name ++ " declaration of " ++ name ++ " in " ++ file)
    | some _ => none

end DeclarationReport

def ConfigLevel.name : ConfigLevel → String
  | .project => "project"
  | .shared => "global"

namespace Session

variable {m : Type → Type} [Monad m]

def settled {ε α : Type} (message : ε → String) (members : α → List (String × Json)) :
    Except ε α → Answer
  | .ok a => .success (members a)
  | .error e => .refusal (message e)

def definition (h : Host m) (s : Session) (location : String) : ExceptT String m Answer := do
  let place ← (ExceptT.mk (pure (Location.ofText location))).adapt LocationError.message
  let place ← (place.resolve h).adapt LocationError.message
  let looked ← (Lookup.definitionAt h s.limit place.file place.line place.column).run
  return settled LookupError.message
    (fun l => (DeclarationReport.ofLookup l (s.shown place.file) place.line place.column).members) looked

def declaration (h : Host m) (s : Session) (file name kindText : String) : ExceptT String m Answer := do
  match SymbolKind.ofText? kindText with
  | none => throw (SymbolKind.unknownMessage kindText)
  | some kind =>
    let path ← (h.resolve file).adapt fun _ => (LocationError.fileNotFound file).message
    let looked ← (Lookup.declarationOf h s.limit path (Symbol.named kind name)).run
    return settled LookupError.message
      (fun d => (DeclarationReport.ofDeclaration d kind name (s.shown path)).members) looked

def noticeText (h : Host m) : NoticeSource → ExceptT String m String
  | .inline text => pure text
  | .file path => (h.read path).adapt FileError.message

def notify (h : Host m) (s : Session) (source : NoticeSource) : ExceptT String m Answer := do
  return settled SettingsError.message ServerSettings.members (s.config.settings.notify (← noticeText h source))

def configInit (h : Host m) (s : Session) (level : ConfigLevel) (force : Bool) : m Answer := do
  return settled ConfigError.message
    (fun path => [("status", .str "created"), ("path", .str path), ("level", .str level.name)])
    (← (Config.create h s.places level force).run)

def configMembers (level : ConfigLevel) (c : Config) : List (String × Json) :=
  [("level", .str level.name), ("config", c.toJson)]

/-- The configuration of the project is the one that the session works with. -/
def configShow (h : Host m) (s : Session) : ConfigLevel → m Answer
  | .project => return .success (configMembers .project s.config)
  | .shared => do
    return settled ConfigError.message (configMembers .shared) (← (Config.load h s.places .shared).run)

def configPath (h : Host m) (s : Session) (level : ConfigLevel) : m Answer := do
  let path := s.places.path level
  return .success [("level", .str level.name), ("path", .str path), ("exists", .bool (← h.isThere path))]

def answer (h : Host m) (s : Session) : Request → ExceptT String m Answer
  | .definition location => s.definition h location
  | .declaration file name kind => s.declaration h file name kind
  | .settings => return .success s.config.settings.members
  | .notify source => s.notify h source
  | .configInit level force => ExceptT.lift (s.configInit h level force)
  | .configShow level => ExceptT.lift (s.configShow h level)
  | .configPath level => ExceptT.lift (s.configPath h level)

end Session

namespace Invocation

variable {m : Type → Type} [Monad m]

def run (h : Host m) (i : Invocation) : m Outcome := do
  let s ← Session.start h
  match i.format.map fun text => (text, OutputFormat.ofText? text) with
  | some (text, none) => return .failed (OutputFormat.unknownMessage text)
  | some (_, some format) => finish { s with format := format }
  | none => finish s
where
  finish (s : Session) : m Outcome := do
    match ← (s.answer h i.request).run with
    | .ok a => return .answered s.format a
    | .error message => return .failed message

end Invocation

def Topic.versionText (t : Topic) : String :=
  "-".intercalate ("scriptnav" :: t.words) ++ " 0.1.0\n"

end ShellDecl
