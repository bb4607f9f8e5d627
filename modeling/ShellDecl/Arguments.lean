/-!
# Arguments

The words of a command line. They lead from topic to topic, and each topic has switches and operands of its own.
Switches that may stand anywhere hold for the topics below them too, where they can be given again. A switch with a
value takes the word behind it or what is attached to it; after two dashes all words are operands.
-/

set_option autoImplicit false

namespace ShellDecl

inductive Topic where
  | program
  | definition
  | declaration
  | settings
  | settingsShow
  | settingsApply
  | config
  | configInit
  | configShow
  | configPath
  deriving DecidableEq, Repr

inductive Switch where
  | help
  | version
  | verbose
  | format
  | name
  | kind
  | file
  | global
  | force
  deriving DecidableEq, Repr

namespace Switch

def long : Switch → String
  | .help => "help"
  | .version => "version"
  | .verbose => "verbose"
  | .format => "format"
  | .name => "name"
  | .kind => "kind"
  | .file => "file"
  | .global => "global"
  | .force => "force"

def short? : Switch → Option Char
  | .help => some 'h'
  | .version => some 'V'
  | .verbose => some 'v'
  | .format => none
  | .name => some 'n'
  | .kind => some 'k'
  | .file => some 'f'
  | .global => none
  | .force => some 'f'

def takesValue : Switch → Bool
  | .format | .name | .kind | .file => true
  | _ => false

/-- The value that a switch refuses: the name of a file is not empty. -/
def refuses (s : Switch) (value : String) : Bool :=
  s == .file && value.isEmpty

def everywhere : List Switch :=
  [.help, .version, .verbose, .format]

end Switch

namespace Topic

def words : Topic → List String
  | .program => []
  | .definition => ["def"]
  | .declaration => ["decl"]
  | .settings => ["settings"]
  | .settingsShow => ["settings", "show"]
  | .settingsApply => ["settings", "apply"]
  | .config => ["config"]
  | .configInit => ["config", "init"]
  | .configShow => ["config", "show"]
  | .configPath => ["config", "path"]

def parts : Topic → List (String × Topic)
  | .program => [("def", .definition), ("decl", .declaration), ("settings", .settings), ("config", .config)]
  | .settings => [("show", .settingsShow), ("apply", .settingsApply)]
  | .config => [("init", .configInit), ("show", .configShow), ("path", .configPath)]
  | _ => []

def ownSwitches : Topic → List Switch
  | .declaration => [.name, .kind]
  | .settingsApply => [.file]
  | .configInit => [.global, .force]
  | .configShow | .configPath => [.global]
  | _ => []

def switches (t : Topic) : List Switch :=
  Switch.everywhere ++ t.ownSwitches

def operandLimit : Topic → Nat
  | .definition | .declaration | .settingsApply => 1
  | _ => 0

def withLong? (t : Topic) (name : String) : Option Switch :=
  t.switches.find? (·.long == name)

def withShort? (t : Topic) (c : Char) : Option Switch :=
  t.switches.find? (·.short? == some c)

end Topic

inductive Stop where
  | help (topic : Topic)
  | version (topic : Topic)
  | misuse
  deriving DecidableEq, Repr

structure Scan where
  topic : Topic := .program
  /-- The switches of this topic, with their values. -/
  given : List (Switch × String) := []
  operands : List String := []
  /-- The last switch that takes a value, as long as it is not counted among the others. -/
  pending : Option (Switch × Option String) := none
  /-- Whether two dashes were read. -/
  closed : Bool := false
  /-- The switches of the topics above, the nearest first. -/
  above : List (Switch × String) := []
  /-- Whether a switch of a topic above was given twice at its end. -/
  spoiled : Bool := false
  deriving Repr

namespace Scan

def count (s : Scan) (w : Switch) (value : String) : Except Stop Scan :=
  if (s.given.lookup w).isSome || w.refuses value then .error .misuse
  else .ok { s with given := (w, value) :: s.given }

def settle (s : Scan) : Except Stop Scan :=
  match s.pending with
  | none => .ok s
  | some (_, none) => .error .misuse
  | some (w, some value) => { s with pending := none }.count w value

def attach (s : Scan) (w : Switch) (value : String) : Except Stop Scan := do
  (← s.settle).count w value

def await (s : Scan) (w : Switch) : Except Stop Scan := do
  return { ← s.settle with pending := some (w, none) }

def flag (s : Scan) (w : Switch) : Except Stop Scan := do
  let s ← s.settle
  match w with
  | .help => .error (.help s.topic)
  | .version => .error (.version s.topic)
  | w => s.count w ""

def long (s : Scan) (name : String) (value : Option String) : Except Stop Scan :=
  match s.topic.withLong? name, value with
  | none, _ => .error .misuse
  | some w, some value => if w.takesValue then s.attach w value else .error .misuse
  | some w, none => if w.takesValue then s.await w else s.flag w

/-- Letters behind one dash. The first one that takes a value has the rest for it, an equals sign in front apart. -/
def short (s : Scan) : List Char → Except Stop Scan
  | [] => .ok s
  | c :: rest =>
    match s.topic.withShort? c with
    | none => .error .misuse
    | some w =>
      if w.takesValue then
        match rest with
        | [] => s.await w
        | '=' :: value => s.attach w (String.ofList value)
        | value => s.attach w (String.ofList value)
      else do short (← s.flag w) rest

def operand (s : Scan) (value : String) : Except Stop Scan := do
  let s ← s.settle
  if s.operands.length < s.topic.operandLimit then return { s with operands := s.operands ++ [value] }
  else .error .misuse

def enter (s : Scan) (topic : Topic) : Scan :=
  match s.settle with
  | .ok s => { topic := topic, above := s.given ++ s.above, spoiled := s.spoiled }
  | .error _ => { topic := topic, above := s.given ++ s.above, spoiled := true }

def awaiting? (s : Scan) : Option Switch :=
  match s.pending with
  | some (w, none) => some w
  | _ => none

def word (s : Scan) (text : String) : Except Stop Scan :=
  if s.closed then s.operand text
  else
    match s.awaiting?, text.toList with
    | some _, '-' :: _ :: _ => .error .misuse
    | some w, _ => .ok { s with pending := some (w, some text) }
    | none, ['-', '-'] => .ok { s with closed := true }
    | none, '-' :: '-' :: rest =>
      let name := String.ofList (rest.takeWhile (· != '='))
      match rest.dropWhile (· != '=') with
      | _ :: value => s.long name (some (String.ofList value))
      | [] => s.long name none
    | none, '-' :: c :: rest => s.short (c :: rest)
    | none, _ => s.operand text

def finish (s : Scan) : Except Stop Scan := do
  let s ← s.settle
  if s.spoiled || !s.topic.parts.isEmpty then .error .misuse else return s

/-- Words that ask for help lead to the topic that help is given on. -/
def helpOn (topic : Topic) : List String → Stop
  | [] => .help topic
  | word :: rest =>
    match topic.parts.lookup word with
    | some t => helpOn t rest
    | none => if word == "help" && !topic.parts.isEmpty && rest.isEmpty then .help topic else .misuse

def run (s : Scan) : List String → Except Stop Scan
  | [] => s.finish
  | text :: rest =>
    if s.closed || s.awaiting?.isSome || s.topic.parts.isEmpty then do (← s.word text).run rest
    else
      match s.topic.parts.lookup text with
      | some topic => (s.enter topic).run rest
      | none => if text == "help" then .error (helpOn s.topic rest) else do (← s.word text).run rest

/-- The value of a switch, of the nearest topic that has one. -/
def value? (s : Scan) (w : Switch) : Option String :=
  (s.given ++ s.above).lookup w

def has (s : Scan) (w : Switch) : Bool :=
  (s.value? w).isSome

end Scan

end ShellDecl
