/-!
# TOML values

The tree of a configuration file. Every value knows the stretch of the text it was read from; a table that no header
names has none. Tables keep their keys in the order in which they came into being, and how they came into being, since
that decides what may still be added to them.
-/

set_option autoImplicit false

namespace ShellDecl.Toml

/-- A stretch of a text: the bytes from its beginning to the end of the text, and the bytes behind it. -/
structure Span where
  ahead : Nat
  behind : Nat
  deriving DecidableEq, Repr

def bytes (text : List Char) : Nat :=
  text.foldl (fun n c => n + c.utf8Size) 0

def Span.between (from' to' : List Char) : Span :=
  ⟨bytes from', bytes to'⟩

def Span.through (s t : Span) : Span :=
  ⟨s.ahead, t.behind⟩

structure Key where
  name : String
  span : Span
  deriving DecidableEq, Repr

inductive Scalar where
  | string (s : String)
  | integer (i : Int)
  | floating (x : Float)
  | boolean (b : Bool)
  | date
  deriving Repr

/-- How a table came into being: by a header of its own or as the root, on the way of another header, by a dotted key,
or as a value in braces. -/
inductive Origin where
  | header
  | implied
  | dotted
  | inline
  deriving DecidableEq, Repr

mutual

/-- `tables` are those of one repeated header, `array` is a value in brackets. -/
inductive Item where
  | scalar (span : Span) (value : Scalar)
  | array (span : Span) (items : List Item)
  | tables (elements : List Table)
  | table (t : Table)

inductive Table where
  | mk (origin : Origin) (span : Option Span) (entries : List (Key × Item))

end

namespace Table

def origin : Table → Origin
  | .mk origin _ _ => origin

def span : Table → Option Span
  | .mk _ span _ => span

def entries : Table → List (Key × Item)
  | .mk _ _ entries => entries

def withEntries (t : Table) (entries : List (Key × Item)) : Table :=
  .mk t.origin t.span entries

def find? (t : Table) (name : String) : Option Item :=
  (t.entries.find? fun e => e.1.name == name).map (·.2)

def push (t : Table) (k : Key) (v : Item) : Table :=
  t.withEntries (t.entries ++ [(k, v)])

def remove (t : Table) (name : String) : Table :=
  t.withEntries (t.entries.filter fun e => e.1.name != name)

def replace (t : Table) (name : String) (v : Item) : Table :=
  t.withEntries (t.entries.map fun e => if e.1.name == name then (e.1, v) else e)

end Table

/-- Repeated tables reach from the first of them to the last. -/
def Item.span : Item → Option Span
  | .scalar span _ => some span
  | .array span _ => some span
  | .tables elements =>
    match elements.head?.bind Table.span, elements.getLast?.bind Table.span with
    | some s, some t => some (s.through t)
    | _, _ => none
  | .table t => t.span

end ShellDecl.Toml
