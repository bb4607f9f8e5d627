import ShellDecl.Script
import ShellDecl.Shell.Node
import ShellDecl.Shell.Program
import ShellDecl.Symbol

/-!
# Documents

A script that was read: its source, its concrete tree and the script tree it is lowered to. Lowering keeps every named
node and turns byte columns into character columns. A cursor finds the symbol under it through the concrete tree.
-/

set_option autoImplicit false

namespace ShellDecl.Shell

inductive Role where
  | functionDefinition
  | variableName
  | expansion
  | commandName
  deriving DecidableEq, Repr

def Role.name : Role → String
  | .functionDefinition => "FunctionDefinition"
  | .variableName => "Variable"
  | .expansion => "Expansion"
  | .commandName => "CommandName"

def roles : List (String × Role) := [
  ("function_definition", .functionDefinition),
  ("variable_name", .variableName),
  ("simple_expansion", .expansion),
  ("expansion", .expansion),
  ("command_name", .commandName)]

def roleOf? (kind : String) : Option Role :=
  roles.lookup kind

/-- The text between two byte offsets of a source, unless one of them is inside of a character or past the end. -/
def slice? (source : String) (start stop : Nat) : Option String :=
  let a : String.Pos.Raw := ⟨start⟩
  let b : String.Pos.Raw := ⟨stop⟩
  if start ≤ stop ∧ a.isValid source ∧ b.isValid source then some (a.extract source b) else none

namespace Node

def text (source : String) (n : Node) : String :=
  (slice? source n.start.byte n.stop.byte).getD ""

/-- The characters of its line that stand in front of a node. Bytes are counted where the line is no slice. -/
def indent (source : String) (n : Node) : Nat :=
  match slice? source (n.start.byte - n.start.column) n.start.byte with
  | some before => before.length
  | none => n.start.column

/-- Since the offsets of a concrete tree are 32-bit numbers, nothing is lost in the extents of its nodes
(`IsNodeOf.extent_eq_ofText`). -/
def extent (source : String) (n : Node) : Extent :=
  let start : Position := ⟨n.start.row + 1, n.indent source + 1⟩
  ⟨start, start.endOf (n.text source).toList, n.text source⟩

mutual

/-- The script tree of a concrete tree. A function without a name declares nothing. -/
def lower (source : String) : Node → Script
  | .mk kind named isName start stop children =>
    let n := Node.mk kind named isName start stop children
    match roleOf? kind with
    | some .functionDefinition =>
      match n.nameChild? with
      | some name => .function (n.extent source) (name.text source) (lowerAll source children)
      | none => .other (n.extent source) (some kind) (lowerAll source children)
    | some .variableName => .variableName (n.extent source)
    | _ => .other (n.extent source) (some kind) (lowerAll source children)

def lowerAll (source : String) : List Node → List Script
  | [] => []
  | n :: ns => if n.named then lower source n :: lowerAll source ns else lowerAll source ns

end

/-- What a node refers to, and the node that is the reference: a variable, the variable of an expansion, a command, or
a word that names a command or a function. -/
def classify? (n : Node) (parent : Option Node) : Option (SymbolKind × Node) :=
  match roleOf? n.kind with
  | some .variableName => some (.var, n)
  | some .expansion => (n.namedChildren.find? (·.kind == "variable_name")).map ((.var, ·))
  | some .commandName => some (.function, n)
  | _ =>
    match parent with
    | none => none
    | some p =>
      match roleOf? p.kind with
      | some .commandName => some (.function, n)
      | some .functionDefinition => if p.nameChild? = some n then some (.function, n) else none
      | _ => none

end Node

def row? : Nat → List Char → Option (List Char)
  | 0, text => some (text.takeWhile (· != '\n'))
  | n + 1, text =>
    match text.dropWhile (· != '\n') with
    | [] => none
    | _ :: rest => row? n rest

def byteLength (text : List Char) : Nat :=
  text.foldl (fun n c => n + c.utf8Size) 0

/-- The point of a cursor that is on a character of the source, line break characters apart. -/
def pointAt? (source : String) (line column : Nat) : Option Point :=
  match line, column with
  | row + 1, before + 1 =>
    match row? row source.toList with
    | none => none
    | some text =>
      if before < text.length then some ⟨row, byteLength (text.take before)⟩ else none
  | _, _ => none

def symbolAt? (source : String) (root : Node) (line column : Nat) : Option Symbol :=
  match pointAt? source line column with
  | none => none
  | some p =>
    let (n, parent) := root.descendantAt p
    (n.classify? parent).map fun (kind, n) =>
      let e := n.extent source
      ⟨kind, e, e.text⟩

def parseTree (source : String) : Node :=
  let read :=
    match readScript source.toList with
    | some r => r.latest.reverse
    | none => []
  match (Phrase.placeAll .origin read).1 with
  | root :: _ => root
  | [] => .mk "program" true false .origin .origin []

structure Document where
  source : String
  root : Node
  script : Script
  lowered : script = root.lower source

def Document.ofTree (source : String) (root : Node) : Document :=
  ⟨source, root, root.lower source, rfl⟩

def Document.ofSource (source : String) : Document :=
  .ofTree source (parseTree source)

def Document.symbolAt? (d : Document) (line column : Nat) : Option Symbol :=
  Shell.symbolAt? d.source d.root line column

end ShellDecl.Shell
