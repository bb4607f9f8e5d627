import ShellDecl.Json.Decoder
import ShellDecl.Script
import ShellDecl.Symbol

/-!
# Decoding the model

A decoder for each type that can be written. A tree node is kept as a whole before it is decoded, since the tag that
tells its shape may come last; so whatever is below a node is decoded from kept values.
-/

set_option autoImplicit false

namespace ShellDecl

open Json

/-! ## Extents and symbols -/

namespace Extent

structure Gathered where
  startLine : Option Nat := none
  startColumn : Option Nat := none
  stopLine : Option Nat := none
  stopColumn : Option Nat := none
  text : Option String := none

def shape : Shape Gathered Extent Source Fault where
  expected := "struct ScriptExtent"
  fields := [
    .required "start_line" Gathered.startLine (fun n s => { s with startLine := some n }) Decoder.word,
    .required "start_column" Gathered.startColumn (fun n s => { s with startColumn := some n }) Decoder.word,
    .required "end_line" Gathered.stopLine (fun n s => { s with stopLine := some n }) Decoder.word,
    .required "end_column" Gathered.stopColumn (fun n s => { s with stopColumn := some n }) Decoder.word,
    .required "text" Gathered.text (fun t s => { s with text := some t }) Decoder.string]
  empty := {}
  finish s := do
    let line ← require "start_line" s.startLine
    let column ← require "start_column" s.startColumn
    let stopLine ← require "end_line" s.stopLine
    let stopColumn ← require "end_column" s.stopColumn
    let text ← require "text" s.text
    return ⟨⟨line, column⟩, ⟨stopLine, stopColumn⟩, text⟩

def decode : Decoder Extent :=
  Gather.record shape

end Extent

namespace SymbolKind

def written? (name : String) : Option SymbolKind :=
  all.find? fun k => k.name == name

def named (mode : Mode) (stop : Mark) (name : String) : Except Fault SymbolKind :=
  match written? name with
  | some k => .ok k
  | none => .error (mode.fault (.unknownVariant name allNames) stop)

/-- A kind is its name, or an object with its name as the only key and null as the value. -/
def decode : Decoder SymbolKind := fun s =>
  match s.draft with
  | .scalar _ (.text name) stop => named s.mode stop name
  | .object start members => do
    let inner ← s.mode.enter start
    match members with
    | .nil settled .closed => .error (.placed .expectedValue settled)
    | .nil settled _ => .error (.placed .endOfValue settled)
    | .noKey _ instead => .error (Source.mismatch ⟨inner, instead⟩ "variant identifier")
    | .badKey _ wanted _ => .error wanted
    | .noColon _ key fault =>
      match key.text with
      | .error f => .error f
      | .ok name => named inner key.stop name >>= fun _ => .error fault
    | .cons _ key value rest =>
      match key.text with
      | .error f => .error f
      | .ok name =>
        let k ← named inner key.stop name
        match value with
        | .scalar _ .null _ =>
          match rest with
          | .nil _ .closed => .ok k
          | .nil settled (.cut _) => .error (.placed .endOfObject settled)
          | rest => .error (.placed .expectedValue rest.settled)
        | value => .error (Source.mismatch ⟨inner, value⟩ "unit")
  | .scalar start _ _ => .error (.placed .expectedValue start.next)
  | .list start _ => .error (.placed .expectedValue start.next)
  | .refused start f => .error (if start.head = some '"' then f else .placed .expectedValue start.next)
  | .broken start f _ =>
    .error (if start.head = some '"' || start.head.isNone then f else .placed .expectedValue start.next)

end SymbolKind

namespace Symbol

structure Gathered where
  kind : Option SymbolKind := none
  extent : Option Extent := none
  displayName : Option String := none

def shape : Shape Gathered Symbol Source Fault where
  expected := "struct SymbolReference"
  fields := [
    .required "kind" Gathered.kind (fun k s => { s with kind := some k }) SymbolKind.decode,
    .required "extent" Gathered.extent (fun e s => { s with extent := some e }) Extent.decode,
    .defaulted ["display_name"] Gathered.displayName (fun t s => { s with displayName := some t }) Decoder.string]
  empty := {}
  finish s := do
    let kind ← require "kind" s.kind
    let extent ← require "extent" s.extent
    return ⟨kind, extent, s.displayName.getD ""⟩

def decode : Decoder Symbol :=
  Gather.record shape

end Symbol

/-! ## Trees -/

namespace Script

inductive Tag where
  | function
  | variableName
  | other
  deriving DecidableEq, Repr

namespace Tag

def all : List Tag :=
  [.function, .variableName, .other]

def name : Tag → String
  | .function => "function_definition"
  | .variableName => "variable_expression"
  | .other => "other"

def key : String := "type"

def named (mode : Mode) (stop : Mark) (name : String) : Except Fault Tag :=
  match all.find? fun t => t.name == name with
  | some t => .ok t
  | none => .error (mode.fault (.unknownVariant name (all.map Tag.name)) stop)

/-- A tag is its name. In a kept value its index stands for it too. -/
def decode : Decoder Tag := fun s =>
  match s.mode, s.draft with
  | mode, .scalar _ (.text s) stop => named mode stop s
  | .kept, .scalar _ (.number (.natural n)) stop =>
    match all[n]? with
    | some t => .ok t
    | none => .error (Mode.kept.fault
        (.wrongValue (.integer n) ("variant index 0 <= i < " ++ toString all.length)) stop)
  | _, _ => .error (s.mismatch "variant identifier")

end Tag

/-- Keeps a value: straight from a text its faults are met now. -/
def keep (mode : Mode) (d : Draft) : Option Fault :=
  match mode with
  | .direct depth => d.kept? depth
  | .kept => none

def tagOf (mode : Mode) (tag : Option Tag) : Members → Except Fault Tag
  | .nil settled ending => Decoder.throwIf ending.inObject
    (match tag with
    | some t => .ok t
    | none => .error (mode.fault (.missingField Tag.key) settled))
  | .noKey _ instead => .error (.placed .keyNotString instead.start.next)
  | .badKey _ wanted _ => .error wanted
  | .noColon _ key fault =>
    match key.text with
    | .error f => .error f
    | .ok k =>
      .error (if k = Tag.key && tag.isSome then mode.fault (.duplicateField Tag.key) key.settled else fault)
  | .cons _ key value rest =>
    match key.text with
    | .error f => .error f
    | .ok k =>
      if k = Tag.key then
        if tag.isSome then .error (mode.fault (.duplicateField Tag.key) key.settled)
        else Tag.decode ⟨mode, value⟩ >>= fun t => tagOf mode (some t) rest
      else Decoder.throwIf (keep mode value) (tagOf mode tag rest)

def untagged : Members → Members
  | .cons settled key value rest =>
    match key.text with
    | .ok k => if k = Tag.key then untagged rest else .cons settled key value (untagged rest)
    | .error _ => .cons settled key value (untagged rest)
  | members => members

structure GatheredFunction where
  name : Option String := none
  body : Option (List Script) := none

def functionShape (children : Decoder (List Script)) : Shape GatheredFunction (Extent → Script) Source Fault where
  expected := "struct variant AstNode::FunctionDefinition"
  fields := [
    .required "name" GatheredFunction.name (fun t s => { s with name := some t }) Decoder.string,
    .required "body" GatheredFunction.body (fun ts s => { s with body := some ts }) children]
  empty := {}
  finish s := do
    let name ← require "name" s.name
    let body ← require "body" s.body
    return fun e => .function e name body

structure GatheredOther where
  label : Option (Option String) := none
  children : Option (List Script) := none

def otherShape (children : Decoder (List Script)) : Shape GatheredOther (Extent → Script) Source Fault where
  expected := "struct variant AstNode::Other"
  fields := [
    .defaulted ["label"] GatheredOther.label (fun l s => { s with label := some l }) (Decoder.optional Decoder.string),
    .defaulted ["children"] GatheredOther.children (fun ts s => { s with children := some ts }) children]
  empty := {}
  finish s := .ok fun e => .other e (s.label.getD none) (s.children.getD [])

/-- What a node with a tag holds besides, as an object or as a list. Nothing is asked of a variable but that a list
is empty. -/
def content (children : Decoder (List Script)) (tag : Tag) (rest : Members ⊕ Items) :
    Except Fault (Extent → Script) :=
  match tag, rest with
  | .function, .inl members => Gather.ofMembers (functionShape children) .kept {} members
  | .function, .inr values => Gather.ofItems (functionShape children) .kept 0 {} (functionShape children).fields values
  | .other, .inl members => Gather.ofMembers (otherShape children) .kept {} members
  | .other, .inr values => Gather.ofItems (otherShape children) .kept 0 {} (otherShape children).fields values
  | .variableName, .inl _ => .ok .variableName
  | .variableName, .inr values =>
    match Gather.count values with
    | 0 => .ok .variableName
    | n => .error ⟨.mismatch (.wrongLength n (countedElements 0 ++ " in sequence")), none⟩

def keepItems (mode : Mode) (values : Items) : Option Fault :=
  match mode with
  | .direct depth => values.kept? depth
  | .kept => none

def decodeShape (children : Decoder (List Script)) : Decoder (Extent → Script) := fun s =>
  match s.draft with
  | .object start members => do
    let inner ← s.mode.enter start
    let tag ← tagOf inner none members
    content children tag (.inl (untagged members))
  | .list start values => do
    let inner ← s.mode.enter start
    match values with
    | .nil settled ending =>
      Decoder.throwIf ending.inList (.error (s.mode.fault (.missingField Tag.key) settled))
    | .cons value rest =>
      let tag ← Tag.decode ⟨inner, value⟩
      Decoder.throwIf (keepItems inner rest) (content children tag (.inr rest))
  | _ => .error (s.mismatch "internally tagged enum AstNode")

structure Gathered where
  extent : Option Extent := none
  node : Option (Extent → Script) := none

def shape (children : Decoder (List Script)) : Shape Gathered Script Source Fault where
  expected := "struct ScriptAst"
  fields := [
    .required "extent" Gathered.extent (fun e s => { s with extent := some e }) Extent.decode,
    .required "node" Gathered.node (fun n s => { s with node := some n }) (decodeShape children)]
  empty := {}
  finish s := do
    let extent ← require "extent" s.extent
    let node ← require "node" s.node
    return node extent

def decodeLevels : Nat → Decoder Script
  | 0 => fun s => .error (.placed .tooDeep s.draft.start.next)
  | levels + 1 => Gather.record (shape (Decoder.list (decodeLevels levels)))

/-- Nodes nest less deep than lists and objects may. -/
def decode : Decoder Script :=
  decodeLevels maxDepth

end Script

end ShellDecl
