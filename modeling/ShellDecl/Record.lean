import ShellDecl.Text.Quoted

/-!
# Records

Values are read from texts of several formats. What a record needs of a format is the same for all of them: a few plain
values, and a way to gather the fields of a record. So the shape of a record is written once, over the drafts `δ` and
the faults `ε` of any format.
-/

set_option autoImplicit false

namespace ShellDecl

/-- What was found where something else was expected. A floating point number is kept as it is written. -/
inductive Found where
  | null
  | boolean (b : Bool)
  | integer (i : Int)
  | floating (written : String)
  | text (s : String)
  | sequence
  | map
  deriving DecidableEq, Repr

def inTicks (s : String) : String :=
  "`" ++ s ++ "`"

def Found.describe : Found → String
  | .null => "null"
  | .boolean b => "boolean " ++ inTicks (if b then "true" else "false")
  | .integer i => "integer " ++ inTicks (toString i)
  | .floating written => "floating point " ++ inTicks written
  | .text s => "string " ++ Text.quoted s
  | .sequence => "sequence"
  | .map => "map"

inductive Mismatch where
  | wrongType (found : Found) (expected : String)
  | wrongValue (found : Found) (expected : String)
  | wrongLength (length : Nat) (expected : String)
  | unknownVariant (name : String) (known : List String)
  | missingField (name : String)
  | duplicateField (name : String)
  deriving DecidableEq, Repr

def Mismatch.message : Mismatch → String
  | .wrongType found expected => "invalid type: " ++ found.describe ++ ", expected " ++ expected
  | .wrongValue found expected => "invalid value: " ++ found.describe ++ ", expected " ++ expected
  | .wrongLength length expected => "invalid length " ++ toString length ++ ", expected " ++ expected
  | .unknownVariant name known =>
    "unknown variant " ++ inTicks name ++ ", expected one of " ++ ", ".intercalate (known.map inTicks)
  | .missingField name => "missing field " ++ inTicks name
  | .duplicateField name => "duplicate field " ++ inTicks name

/-- A field of a record whose fields are gathered in `σ`. Any of its names stands for it; faults use the first. -/
structure Field (σ δ ε : Type) where
  names : List String
  isSet : σ → Bool
  /-- Whether a list may end in front of the field. -/
  omissible : Bool
  decode : δ → σ → Except ε σ

namespace Field

variable {σ β δ ε : Type}

def name (f : Field σ δ ε) : String :=
  f.names.headD ""

def required (name : String) (get : σ → Option β) (set : β → σ → σ) (decode : δ → Except ε β) :
    Field σ δ ε where
  names := [name]
  isSet s := (get s).isSome
  omissible := false
  decode d s := (decode d).map (set · s)

def defaulted (names : List String) (get : σ → Option β) (set : β → σ → σ) (decode : δ → Except ε β) :
    Field σ δ ε where
  names := names
  isSet s := (get s).isSome
  omissible := true
  decode d s := (decode d).map (set · s)

end Field

/-- How a record is read: its fields in order, and what is made of the fields that were found. -/
structure Shape (σ α δ ε : Type) where
  expected : String
  fields : List (Field σ δ ε)
  empty : σ
  finish : σ → Except Mismatch α

def Shape.field? {σ α δ ε : Type} (s : Shape σ α δ ε) (key : String) : Option (Field σ δ ε) :=
  s.fields.find? fun f => f.names.contains key

def require {β : Type} (name : String) (value : Option β) : Except Mismatch β :=
  match value with
  | some b => .ok b
  | none => .error (.missingField name)

structure Format (δ ε : Type) where
  string : δ → Except ε String
  boolean : δ → Except ε Bool
  /-- A whole number of 32 bits without a sign. -/
  word : δ → Except ε Nat
  optional : {β : Type} → (δ → Except ε β) → δ → Except ε (Option β)
  record : {σ α : Type} → Shape σ α δ ε → δ → Except ε α

end ShellDecl
