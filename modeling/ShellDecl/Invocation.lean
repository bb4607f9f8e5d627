import ShellDecl.Arguments
import ShellDecl.Config.Store

/-!
# Invocations

What a command line asks for.
-/

set_option autoImplicit false

namespace ShellDecl

inductive NoticeSource where
  | inline (text : String)
  | file (path : String)
  deriving DecidableEq, Repr

inductive Request where
  | definition (location : String)
  | declaration (file name kind : String)
  | settings
  | notify (source : NoticeSource)
  | configInit (level : ConfigLevel) (force : Bool)
  | configShow (level : ConfigLevel)
  | configPath (level : ConfigLevel)
  deriving DecidableEq, Repr

structure Invocation where
  request : Request
  /-- The format that takes the place of the configured one. -/
  format : Option String
  deriving DecidableEq, Repr

namespace Scan

def level (s : Scan) : ConfigLevel :=
  if s.has .global then .shared else .project

def request? (s : Scan) : Option Request :=
  match s.topic, s.operands with
  | .definition, [location] => some (.definition location)
  | .declaration, [file] =>
    (s.value? .name).map fun name => .declaration file name ((s.value? .kind).getD "function")
  | .settingsShow, [] => some .settings
  | .settingsApply, operands =>
    match operands, s.value? .file with
    | [text], none => some (.notify (.inline text))
    | [], some path => some (.notify (.file path))
    | _, _ => none
  | .configInit, [] => some (.configInit s.level (s.has .force))
  | .configShow, [] => some (.configShow s.level)
  | .configPath, [] => some (.configPath s.level)
  | _, _ => none

end Scan

def Invocation.ofArguments (args : List String) : Except Stop Invocation := do
  let s ← Scan.run {} args
  match s.request? with
  | some r => return ⟨r, s.value? .format⟩
  | none => .error .misuse

end ShellDecl
